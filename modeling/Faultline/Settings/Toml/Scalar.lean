/-
# Settings.Toml.Scalar — texts, numbers and times of a TOML file

Each reader takes the characters at hand and gives the value with what is left.

A text in three quotes may span lines. A backslash at the end of a line joins it
with the next one; from there on line ends are dropped, until a line ends in an even
number of backslashes.
-/
import Faultline.Text.Number
import Faultline.Text.Quoted

namespace Faultline.Settings.Toml

/-- Why a text is no TOML. Some texts pass for a number or an escape at first sight only. -/
inductive Error where
  | malformed
  | notInteger (text : String)
  | notEscape (c : Char)
  deriving DecidableEq, Inhabited

def Error.message : Error → String
  | .malformed => "malformed settings"
  | .notInteger s => "BUG: Expected integer value, but got " ++ Text.quote s ++ ".\n\n"
  | .notEscape c => "BUG: Expected valid escape code after \\, but got '" ++ String.ofList (Text.quoteChar c)
      ++ "'.\n\n"

inductive Value where
  | text (s : String)
  | int (n : Int)
  | bool (b : Bool)
  | other
  | list (items : List Value)
  | table
  deriving Inhabited

def malformed {α : Type} : Except Error α := .error .malformed

def isBlank (c : Char) : Bool := c == ' ' || c == '\t'

def isLineEnd (c : Char) : Bool := c == '\n' || c == '\r'

def isControl (c : Char) : Bool :=
  (c.toNat < 32 && !isBlank c && !isLineEnd c) || c.toNat = 127

def isHex (c : Char) : Bool := (Text.digitValue? c).any (· < 16)

/-! ## Texts -/

def escapes : List (Char × Char) :=
  [('b', '\x08'), ('t', '\t'), ('n', '\n'), ('f', '\x0c'), ('r', '\r'), ('"', '"'), ('\\', '\\')]

/-- Whether `c`, with what follows it, can stand after a backslash. Blanks can, at the end of a line. -/
def escapeFits (c : Char) (rest : List Char) : Bool :=
  let coded (n : Nat) := (rest.take n).length = n && (rest.take n).all isHex
  (escapes.lookup c).isSome || isBlank c || (c == 'u' && coded 4) || (c == 'U' && coded 8)

/-- A text on one line up to its closing quote, as written, and what follows. -/
def shortBody (quote : Char) : List Char → Option (List Char × List Char)
  | [] => none
  | c :: cs =>
    if c == quote then some ([], cs)
    else if isControl c || isLineEnd c then none
    else if c == '\\' && quote == '"' then
      match cs with
      | [] => none
      | d :: ds =>
        if escapeFits d ds then (shortBody quote ds).map fun (t, r) => (c :: d :: t, r) else none
    else (shortBody quote cs).map fun (t, r) => (c :: t, r)

/-- A text of several lines up to its three closing quotes, as written, and what follows. Two more
quotes may stand before these; `run` counts the quotes passed so far. -/
def longBody (quote : Char) : Nat → List Char → Option (List Char × List Char)
  | _, [] => none
  | run, c :: cs =>
    if c == quote then
      if cs.head? == some quote && cs.tail.head? == some quote then
        if cs.tail.tail.head? != some quote then some ([], cs.drop 2)
        else if run ≥ 2 then none
        else (longBody quote (run + 1) cs).map fun (t, r) => (c :: t, r)
      else (longBody quote (run + 1) cs).map fun (t, r) => (c :: t, r)
    else if c == '\\' && quote == '"' then
      match cs with
      | [] => none
      | d :: ds =>
        if isLineEnd d || escapeFits d ds then
          (longBody quote (if d == quote then 1 else 0) ds).map fun (t, r) => (c :: d :: t, r)
        else none
    else if isControl c || (c == '\r' && cs.head? != some '\n') then none
    else (longBody quote 0 cs).map fun (t, r) => (c :: t, r)

def codedChar (ds : List Char) : Except Error Char :=
  match Text.digits 16 (twoPow 32) ds with
  | .ok code => if h : code.isValidChar then .ok (Char.ofNatAux code h) else malformed
  | .error _ => malformed

def unescape : List Char → Except Error (List Char)
  | [] => .ok []
  | '\\' :: 'u' :: a :: b :: c :: d :: cs => do
    pure ((← codedChar [a, b, c, d]) :: (← unescape cs))
  | '\\' :: 'U' :: a :: b :: c :: d :: e :: f :: g :: h :: cs => do
    pure ((← codedChar [a, b, c, d, e, f, g, h]) :: (← unescape cs))
  | '\\' :: c :: cs =>
    match escapes.lookup c with
    | some x => do pure (x :: (← unescape cs))
    | none => if isBlank c then malformed else .error (.notEscape c)
  | c :: cs => do pure (c :: (← unescape cs))

def trimLeft (cs : List Char) : List Char :=
  cs.dropWhile fun c => isBlank c || c == '\r'

def trimRight (p : Char → Bool) (cs : List Char) : List Char :=
  (cs.reverse.dropWhile p).reverse

/-- Lines put together. `folded` says that line ends are dropped, `joined` that the line before ended
in a backslash. -/
def joinLines (folded joined : Bool) : List (List Char) → List Char
  | [] => []
  | line :: lines =>
    let line := if joined then trimLeft line else line
    let visible := trimRight (fun c => isBlank c || c == '\r') line
    let slashes := (visible.reverse.takeWhile (· == '\\')).length
    if slashes = 0 then
      trimRight (· == '\r') line ++ (if folded || lines.isEmpty then [] else ['\n'])
        ++ joinLines folded false lines
    else if slashes % 2 = 0 then line ++ '\n' :: joinLines false false lines
    else (if folded then trimLeft visible else visible).dropLast ++ joinLines true true lines

def splitLines (cs : List Char) : List (List Char) :=
  ((String.ofList cs).splitOn "\n").map String.toList

/-- A line end right after the opening quotes does not count. -/
def firstLineEnd : List Char → List Char
  | '\n' :: cs => cs
  | '\r' :: '\n' :: cs => cs
  | cs => cs

/-- A text within single quotes holds no escapes. -/
def meaning (quote : Char) (body : List Char) : Except Error String :=
  if quote == '"' then (unescape body).map String.ofList else .ok (String.ofList body)

def shortText (quote : Char) (cs : List Char) : Except Error (String × List Char) :=
  match shortBody quote cs with
  | some (body, rest) => (meaning quote body).map (·, rest)
  | none => malformed

def anyText (quote : Char) (cs : List Char) : Except Error (String × List Char) :=
  match cs with
  | a :: b :: rest =>
    if a == quote && b == quote then
      match longBody quote 0 rest with
      | none => malformed
      | some (body, rest) =>
        let body := if quote == '"' then joinLines false false (splitLines body) else body
        (meaning quote (firstLineEnd body)).map (·, rest)
    else shortText quote cs
  | cs => shortText quote cs

/-! ## Numbers -/

/-- Each underscore follows a digit, and a digit comes last. -/
def underscoresFit (cs : List Char) : Bool :=
  let step (fits : Option Bool) (c : Char) : Option Bool :=
    match fits with
    | none => none
    | some afterDigit => if c == '_' && !afterDigit then none else some (isHex c)
  (cs.foldl step (some false)).getD false

def unsigned : List Char → List Char
  | '+' :: cs => cs
  | '-' :: cs => cs
  | cs => cs

def hasNeedlessZero (cs : List Char) : Bool :=
  match unsigned cs with
  | '0' :: c :: _ => c.isDigit
  | _ => false

def integer (cs : List Char) : Except Error Value :=
  if !underscoresFit cs || hasNeedlessZero cs then malformed
  else match Text.integer (String.ofList cs) with
    | .ok n => .ok (.int n)
    | .error .range => malformed
    | .error .form => .error (.notInteger (String.ofList cs))

/-- A point is followed by a digit. -/
def pointsFit : List Char → Bool
  | [] => true
  | '.' :: cs => (cs.head?.any Char.isDigit) && pointsFit cs
  | _ :: cs => pointsFit cs

def numberOf (cs : List Char) : Nat :=
  cs.foldl (fun n c => 10 * n + (c.toNat - '0'.toNat)) 0

/-- The least number that no binary fraction of 64 bits comes near to. -/
def fractionBound : Nat := (twoPow 54 - 1) * twoPow 970

/-- Whether `m` times a power of ten stays below the bound. -/
def inRange (m : Nat) (exponent : Int) : Bool :=
  let size : Int := (Nat.toDigits 10 m).length + exponent
  if m = 0 || size < 300 then true
  else if size > 310 then false
  else match exponent with
    | .ofNat e => m * Nat.pow 10 e < fractionBound
    | .negSucc e => m < fractionBound * Nat.pow 10 (e + 1)

def isFraction (cs : List Char) : Bool :=
  let cs := unsigned cs
  let whole := cs.takeWhile Char.isDigit
  let rest := cs.dropWhile Char.isDigit
  let (part, rest) := match rest with
    | '.' :: r => (r.takeWhile Char.isDigit, r.dropWhile Char.isDigit)
    | r => ([], r)
  let m := numberOf (whole ++ part)
  match rest with
  | [] => inRange m (-(part.length : Int))
  | e :: r =>
    let ds := unsigned r
    let n : Int := numberOf ds
    (e == 'e' || e == 'E') && !ds.isEmpty && ds.all Char.isDigit
      && inRange m ((if r.head? == some '-' then -n else n) - part.length)

def isMark (c : Char) : Bool := c == '.' || c == 'e' || c == 'E'

def fraction (cs : List Char) : Except Error Value :=
  let marked := String.ofList (cs.map fun c => if isMark c then '.' else c)
  let parts := ((marked.splitOn ".").filter (· != "")).map String.toList
  if parts.all underscoresFit && !(hasNeedlessZero (parts.headD [])) && pointsFit cs
    && isFraction (cs.filter (· != '_')) then .ok .other
  else malformed

/-! ## Points in time -/

def twoDigits? : List Char → Option (Nat × List Char)
  | a :: b :: cs =>
    if a.isDigit && b.isDigit then some (10 * (a.toNat - 48) + (b.toNat - 48), cs) else none
  | _ => none

def hour? (cs : List Char) : Option (Nat × List Char) :=
  match twoDigits? cs, cs with
  | some r, _ => some r
  | none, a :: cs => if a.isDigit then some (a.toNat - 48, cs) else none
  | none, [] => none

def isOffset : List Char → Bool
  | [] => true
  | ['Z'] => true
  | s :: cs =>
    (s == '+' || s == '-') &&
      match twoDigits? cs with
      | some (h, ':' :: cs) =>
        match twoDigits? cs with
        | some (m, []) => h ≤ 24 && m ≤ 60
        | _ => false
      | _ => false

def isClock (mayHaveOffset : Bool) (cs : List Char) : Bool :=
  match hour? cs with
  | some (h, ':' :: cs) =>
    match twoDigits? cs with
    | some (m, ':' :: cs) =>
      match twoDigits? cs with
      | some (s, cs) =>
        let rest := match cs with
          | '.' :: ds =>
            if (ds.takeWhile Char.isDigit).isEmpty then ['.'] else ds.dropWhile Char.isDigit
          | cs => cs
        h < 24 && m < 60 && s < 60 && (if mayHaveOffset then isOffset rest else rest.isEmpty)
      | none => false
    | _ => false
  | _ => false

def daysIn (year month : Nat) : Nat :=
  if month = 2 then if year % 4 = 0 && (year % 100 ≠ 0 || year % 400 = 0) then 29 else 28
  else if [4, 6, 9, 11].contains month then 30 else 31

def isDate (cs : List Char) : Bool :=
  match twoDigits? cs with
  | none => false
  | some (c, cs) =>
    match twoDigits? cs with
    | some (y, '-' :: cs) =>
      match twoDigits? cs with
      | some (m, '-' :: cs) =>
        match twoDigits? cs with
        | some (d, cs) =>
          1 ≤ m && m ≤ 12 && 1 ≤ d && d ≤ daysIn (100 * c + y) m &&
            match cs with
            | [] => true
            | t :: cs => t == 'T' && isClock true cs
        | none => false
      | _ => false
    | _ => false

def time (cs : List Char) : Except Error Value :=
  let cs := (trimRight isBlank cs).map fun c =>
    if c == 't' || c == ' ' then 'T' else if c == 'z' then 'Z' else c
  if isDate cs || isClock false cs then .ok .other else malformed

/-! ## Cutting out -/

def isDecimalChar (c : Char) : Bool := c.isDigit || c == '_'

def isFractionChar (c : Char) : Bool := isDecimalChar c || isMark c || c == '-' || c == '+'

def isTimeChar (c : Char) : Bool :=
  c.isDigit || ['-', ':', 'T', 't', ' ', '.', 'Z', 'z', '+'].contains c

def cut (isPart : Char → Bool) (read : List Char → Except Error Value) (cs : List Char) :
    Except Error (Value × List Char) :=
  (read (cs.takeWhile isPart)).map (·, cs.dropWhile isPart)

def decimal (sign cs : List Char) : Except Error (Value × List Char) :=
  if (cs.dropWhile isDecimalChar).head?.any isMark then
    cut isFractionChar (fun ds => fraction (sign ++ ds)) cs
  else cut isDecimalChar (fun ds => integer (sign ++ ds)) cs

def based (letter : Char) (base : Nat) (cs : List Char) : Except Error (Value × List Char) :=
  let isPart := fun (c : Char) => (Text.digitValue? c).any (· < base)
  if cs.head?.any isPart then cut (fun c => isPart c || c == '_') (fun ds => integer ('0' :: letter :: ds)) cs
  else malformed

def number (cs : List Char) : Except Error (Value × List Char) :=
  match cs with
  | '0' :: 'x' :: ds => based 'x' 16 ds
  | '0' :: 'o' :: ds => based 'o' 8 ds
  | '0' :: 'b' :: ds => based 'b' 2 ds
  | ['0'] => .ok (.int 0, [])
  | '0' :: c :: ds =>
    if c == '-' || c == ':' then .ok (.int 0, c :: ds) else numberOrTime cs
  | cs => numberOrTime cs
where
  numberOrTime (cs : List Char) : Except Error (Value × List Char) :=
    let next := (cs.dropWhile Char.isDigit).head?
    if next == some '-' || next == some ':' then cut isTimeChar time cs else decimal [] cs

def signed (sign : Char) (cs : List Char) : Except Error (Value × List Char) :=
  match cs with
  | 'i' :: 'n' :: 'f' :: cs => .ok (.other, cs)
  | 'n' :: 'a' :: 'n' :: cs => .ok (.other, cs)
  | '0' :: 'x' :: _ | '0' :: 'o' :: _ | '0' :: 'b' :: _ => malformed
  | c :: _ => if c.isDigit then decimal [sign] cs else malformed
  | [] => malformed

def scalar (cs : List Char) : Except Error (Value × List Char) :=
  match cs with
  | '"' :: cs => (anyText '"' cs).map fun (s, rest) => (.text s, rest)
  | '\'' :: cs => (anyText '\'' cs).map fun (s, rest) => (.text s, rest)
  | '+' :: cs => signed '+' cs
  | '-' :: cs => signed '-' cs
  | 'i' :: 'n' :: 'f' :: cs => .ok (.other, cs)
  | 'n' :: 'a' :: 'n' :: cs => .ok (.other, cs)
  | 't' :: 'r' :: 'u' :: 'e' :: cs => .ok (.bool true, cs)
  | 'f' :: 'a' :: 'l' :: 's' :: 'e' :: cs => .ok (.bool false, cs)
  | c :: _ => if c.isDigit then number cs else malformed
  | [] => malformed

end Faultline.Settings.Toml
