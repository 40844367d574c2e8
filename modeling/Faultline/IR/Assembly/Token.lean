/-
# IR.Assembly.Token — assembly text as tokens

`scan` cuts a text into tokens; every text has some, because what belongs to no
token is passed over. A run of name characters is a label if a colon follows, and
otherwise begins with the longest keyword or number it can.
-/
import Faultline.IR.Assembly.Keyword
import Faultline.IR.Assembly.Literal

namespace Faultline.IR.Assembly

open Text (Bytes)

inductive Token where
  | word (w : String)
  | symbol (c : Char)
  | int (digits : List Char)
  | real (text : List Char)
  | intType (digits : List Char)
  | string (s : Bytes)
  | local (name : Name)
  | global (name : Name)
  | label (name : Name)
  | comdat (name : Bytes)
  | tag (name : Bytes)
  | node (digits : List Char)
  | group (digits : List Char)
  | debug (w : String)
  deriving DecidableEq, Inhabited

/-! ## Texts and names -/

def hexByte? (b : UInt8) : Option Nat :=
  (Text.digitValue? (Char.ofNat b.toNat)).filter (· < 16)

def backslash : UInt8 := 0x5c

/-- The bytes of a quoted text: a backslash and two digits are one byte, two backslashes one, unless
they end the text. -/
def unescape : Bytes → Bytes
  | [] => []
  | c :: cs =>
    match cs with
    | a :: b :: bs =>
      if c ≠ backslash then c :: unescape (a :: b :: bs)
      else if a = backslash then backslash :: unescape (b :: bs)
      else match hexByte? a, hexByte? b with
        | some x, some y => (16 * x + y).toUInt8 :: unescape bs
        | _, _ => backslash :: unescape (a :: b :: bs)
    | cs => c :: unescape cs

def unescaped (cs : List Char) : Bytes :=
  unescape (Text.utf8 (String.ofList cs))

def quoted? (cs : List Char) : Option (List Char × List Char) :=
  match cs.dropWhile (· != '"') with
  | _ :: rest => some (cs.takeWhile (· != '"'), rest)
  | [] => none

/-- A name between quotes; the empty one is none. -/
def quotedName (cs : List Char) : Name :=
  match unescaped cs with
  | [] => .number 0
  | s => .named s

/-- A name without quotes; one that is a number of 64 bits is a number. -/
def bareName (cs : List Char) : Name :=
  match Text.decimal? cs with
  | some n => .number n
  | none => .named (Text.utf8 (String.ofList cs))

def isLetter (c : Char) : Bool :=
  isNameChar c && !c.isDigit

/-- A name after its mark, and what follows it: quoted, a run of name characters, or digits. -/
def name? (cs : List Char) : Option (Name × List Char) :=
  match cs with
  | '"' :: cs => (quoted? cs).map fun (inner, rest) => (quotedName inner, rest)
  | c :: _ =>
    let run := if isLetter c then cs.takeWhile isNameChar else cs.takeWhile Char.isDigit
    if run.isEmpty then none else some (bareName run, cs.drop run.length)
  | [] => none

/-! ## Numbers -/

def isHexDigit (c : Char) : Bool :=
  (Text.digitValue? c).any (· < 16)

def exponentOf (cs : List Char) : List Char :=
  match cs with
  | e :: cs =>
    if e == 'e' || e == 'E' then
      let sign := cs.takeWhile fun c => c == '+' || c == '-'
      let digits := (cs.drop sign.length).takeWhile Char.isDigit
      if sign.length ≤ 1 && !digits.isEmpty then e :: sign ++ digits else []
    else []
  | [] => []

def realOf (cs : List Char) : List Char :=
  let sign := match cs with
    | '+' :: _ => ['+']
    | '-' :: _ => ['-']
    | _ => []
  let whole := (cs.drop sign.length).takeWhile Char.isDigit
  match cs.drop (sign.length + whole.length) with
  | '.' :: rest =>
    if whole.isEmpty then []
    else
      let fraction := rest.takeWhile Char.isDigit
      sign ++ whole ++ '.' :: fraction ++ exponentOf (rest.drop fraction.length)
  | _ => []

/-- A number in hexadecimal; a letter in front of the digits tells the type. -/
def hexRealOf (cs : List Char) : List Char :=
  match cs with
  | '0' :: 'x' :: rest =>
    let mark := (rest.take 1).filter fun c => c == 'K' || c == 'L' || c == 'M' || c == 'H'
    let digits := (rest.drop mark.length).takeWhile isHexDigit
    if digits.isEmpty then [] else '0' :: 'x' :: mark ++ digits
  | _ => []

/-- An integer: decimal, or hexadecimal with a mark for its sign. -/
def intOf (cs : List Char) : List Char :=
  let hex := fun (mark : Char) (rest : List Char) =>
    let digits := rest.takeWhile isHexDigit
    if digits.isEmpty then [] else mark :: '0' :: 'x' :: digits
  match cs with
  | 'u' :: '0' :: 'x' :: rest => hex 'u' rest
  | 's' :: '0' :: 'x' :: rest => hex 's' rest
  | '-' :: rest =>
    let digits := rest.takeWhile Char.isDigit
    if digits.isEmpty then [] else '-' :: digits
  | cs => cs.takeWhile Char.isDigit

def intTypeOf (cs : List Char) : List Char :=
  match cs with
  | 'i' :: rest => rest.takeWhile Char.isDigit
  | _ => []

/-! ## Words -/

/-- The longest keyword in front of a text; nothing if there is none. -/
def keywordOf (cs : List Char) : List Char :=
  let starts := (List.range cs.length).reverse.map fun n => cs.take (n + 1)
  (starts.find? fun w => keywords.contains (String.ofList w)).getD []

/-- A name of debug information; nothing if there is none. -/
def debugOf (cs : List Char) : List Char :=
  if debugStems.any fun stem => stem.toList.isPrefixOf cs then
    cs.takeWhile fun c => c.isAlphanum || c == '_'
  else []

def wordTokens (cs run : List Char) : List (Token × Nat) :=
  let keyword := keywordOf run
  let bits := intTypeOf cs
  [(Token.word (String.ofList keyword), keyword.length), (.real (realOf cs), (realOf cs).length),
    (.real (hexRealOf cs), (hexRealOf cs).length), (.int (intOf cs), (intOf cs).length),
    (.intType bits, if bits.isEmpty then 0 else bits.length + 1),
    (.debug (String.ofList (debugOf cs)), (debugOf cs).length)]

/-- The longest of these tokens, the first of equally long ones. -/
def wordToken? (cs run : List Char) : Option (Token × Nat) :=
  (wordTokens cs run).foldl (fun best t =>
    match best with
    | some b => if b.2 < t.2 then some t else best
    | none => if 0 < t.2 then some t else none) none

abbrev Step := Option Token × List Char

def symbols : List Char :=
  [',', '(', ')', '[', ']', '\x7b', '\x7d', '*', '<', '=', '>', '|']

/-- A token after a mark and a name, or nothing. Without a closing quote nothing follows. -/
def marked (make : Name → Token) (cs : List Char) : Step :=
  match name? cs with
  | some (n, rest) => (some (make n), rest)
  | none => (none, if cs.head? == some '"' then [] else cs)

def wordStep (cs : List Char) : Step :=
  let run := cs.takeWhile isNameChar
  let rest := cs.drop run.length
  match rest with
  | ':' :: rest => (some (.label (bareName run)), rest)
  | _ =>
    match run with
    | ['$'] =>
      match rest with
      | '"' :: rest =>
        match quoted? rest with
        | some (inner, rest) => (some (.comdat (unescaped inner)), rest)
        | none => (none, [])
      | _ => (none, rest)
    | '$' :: c :: name =>
      if isLetter c then (some (.comdat (Text.utf8 (String.ofList (c :: name)))), rest) else (none, rest)
    | _ =>
      match wordToken? cs run with
      | some (t, n) => (some t, cs.drop n)
      | none => (none, rest)

/-- Metadata: a name, in which a backslash may stand, a number, or the mark alone. -/
def metadataStep (cs : List Char) : Step :=
  let isTagChar := fun c => isNameChar c || c == '\\'
  let digits := cs.takeWhile Char.isDigit
  if !digits.isEmpty then (some (.node digits), cs.drop digits.length)
  else
    let run := cs.takeWhile isTagChar
    if run.isEmpty then (some (.symbol '!'), cs) else (some (.tag (unescaped run)), cs.drop run.length)

def step (c : Char) (cs : List Char) : Step :=
  match c with
  | '%' => marked .local cs
  | '@' => marked .global cs
  | '"' =>
    match quoted? cs with
    | some (inner, ':' :: rest) => (some (.label (quotedName inner)), rest)
    | some (inner, rest) => (some (.string (unescaped inner)), rest)
    | none => (none, [])
  | '#' =>
    let digits := cs.takeWhile Char.isDigit
    (if digits.isEmpty then none else some (.group digits), cs.drop digits.length)
  | '!' => metadataStep cs
  | '+' =>
    match realOf (c :: cs) with
    | [] => (none, cs.dropWhile Char.isDigit)
    | text => (some (.real text), (c :: cs).drop text.length)
  | _ =>
    if isNameChar c then wordStep (c :: cs)
    else if symbols.contains c then (some (.symbol c), cs)
    else (none, cs)

def isBlank (c : Char) : Bool :=
  c == ' ' || c == '\t' || c == '\n' || c == '\r' || c == '\x00'

def scanFrom : Nat → List Char → Array Token → Array Token
  | 0, _, out => out
  | _, [], out => out
  | fuel + 1, ';' :: cs, out => scanFrom fuel (cs.dropWhile fun c => c != '\n' && c != '\r') out
  | fuel + 1, c :: cs, out =>
    if isBlank c then scanFrom fuel cs out
    else match step c cs with
      | (some t, rest) => scanFrom fuel rest (out.push t)
      | (none, rest) => scanFrom fuel rest out

def scan (cs : List Char) : List Token :=
  (scanFrom (cs.length + 1) cs #[]).toList

end Faultline.IR.Assembly
