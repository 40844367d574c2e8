/-
# Settings.Yaml.Scalar — the forms of scalars

A scalar is plain, in single or double quotes, or a block of lines. In the first two
forms a line end counts as a blank, and further line ends as themselves; a block is
literal or folded, and its end may be kept or cut off.
-/
import Faultline.Settings.Yaml.Cursor
import Faultline.Text.Number

namespace Faultline.Settings.Yaml

/-! ## Space between words -/

structure Gap where
  blanks : List Char := []
  first : List Char := []
  others : List Char := []
  isBroken : Bool := false

def Gap.text (g : Gap) : List Char :=
  if !g.isBroken then g.blanks
  else if g.first.head? != some '\n' then g.first ++ g.others
  else if g.others.isEmpty then [' ']
  else g.others

/-- Passes over a gap. On later lines a tab may not stand in front of the column `indent`. -/
def Gap.read (indent : Int) : Nat → Cursor → Gap → Option (Gap × Cursor)
  | 0, c, g => some (g, c)
  | fuel + 1, c, g =>
    match c.head? with
    | none => some (g, c)
    | some d =>
      if isBlank d then
        if !g.isBroken then Gap.read indent fuel c.skip { g with blanks := g.blanks ++ [d] }
        else if d == '\t' && (c.column : Int) < indent then none
        else Gap.read indent fuel c.skip g
      else if isBreak d then
        let (text, c) := c.breakLine
        if g.isBroken then Gap.read indent fuel c { g with others := g.others ++ text }
        else Gap.read indent fuel c { g with blanks := [], first := text, isBroken := true }
      else some (g, c)

/-! ## Plain scalars -/

def isFlowMark (c : Char) : Bool := [',', '?', '[', ']', '\x7b', '\x7d'].contains c

def plainWord (flow : Bool) : List Char → List Char
  | [] => []
  | c :: cs =>
    if isBlank c || isBreak c || (c == ':' && atSpace cs) || (flow && isFlowMark c) then []
    else c :: plainWord flow cs

/-- A plain scalar, and whether lines ended after its last word. -/
def plain (flow : Bool) (indent : Int) : Nat → Cursor → Gap → List Char →
    Option (List Char × Bool × Cursor)
  | 0, c, g, text => some (text, g.isBroken, c)
  | fuel + 1, c, g, text =>
    if c.isAnyMarker || c.isAt '#' then some (text, g.isBroken, c)
    else
      let word := plainWord flow c.rest
      let (text, g) := if word.isEmpty then (text, g) else (text ++ g.text ++ word, {})
      let c := { c with
        rest := c.rest.drop word.length, index := c.index + word.length, column := c.column + word.length }
      if c.rest.isEmpty || !atSpace c.rest then some (text, g.isBroken, c)
      else match Gap.read indent c.rest.length c g with
        | none => none
        | some (g, c) =>
          if !flow && (c.column : Int) < indent then some (text, g.isBroken, c)
          else plain flow indent fuel c g text

/-! ## Scalars in quotes -/

def escapes : List (Char × Char) :=
  [('0', '\x00'), ('a', '\x07'), ('b', '\x08'), ('t', '\t'), ('\t', '\t'), ('n', '\n'), ('v', '\x0b'),
    ('f', '\x0c'), ('r', '\r'), ('e', '\x1b'), (' ', ' '), ('"', '"'), ('\'', '\''), ('\\', '\\'),
    ('N', '\u0085'), ('_', '\u00a0'), ('L', '\u2028'), ('P', '\u2029')]

def codeLengths : List (Char × Nat) := [('x', 2), ('u', 4), ('U', 8)]

def escape? (cs : List Char) : Option (Char × Nat) := do
  let c ← cs.head?
  match escapes.lookup c with
  | some d => some (d, 1)
  | none =>
    let n ← codeLengths.lookup c
    let ds := cs.tail.take n
    if ds.length < n then none
    let code ← (Text.digits 16 (twoPow 32) ds).toOption
    if h : code.isValidChar then some (Char.ofNatAux code h, n + 1) else none

def Cursor.skipMany : Nat → Cursor → Cursor
  | 0, c => c
  | n + 1, c => skipMany n c.skip

/-- The characters up to a blank, a line end or the closing quote; and whether an escaped line end
came last. -/
def quotedWord (quote : Char) : Nat → Cursor → List Char → Option (List Char × Bool × Cursor)
  | 0, c, text => some (text, false, c)
  | fuel + 1, c, text =>
    match c.rest with
    | [] => some (text, false, c)
    | d :: ds =>
      if isBlank d || isBreak d then some (text, false, c)
      else if d == quote then
        if quote == '\'' && ds.head? == some quote then
          quotedWord quote fuel c.skip.skip (text ++ [quote])
        else some (text, false, c)
      else if d == '\\' && quote == '"' then
        if ds.head?.any isBreak then some (text, true, c.skip.breakLine.2)
        else match escape? ds with
          | some (e, n) => quotedWord quote fuel (c.skipMany (n + 1)) (text ++ [e])
          | none => none
      else quotedWord quote fuel c.skip (text ++ [d])

def quoted (quote : Char) : Nat → Cursor → List Char → Option (List Char × Cursor)
  | 0, _, _ => none
  | fuel + 1, c, text =>
    if c.isAnyMarker || c.rest.isEmpty then none
    else do
      let (text, escaped, c) ← quotedWord quote (c.rest.length + 1) c text
      if c.isAt quote then some (text, c.skip)
      else
        let (g, c) ← Gap.read 0 c.rest.length c { isBroken := escaped }
        quoted quote fuel c (text ++ g.text)

/-! ## Blocks -/

/-- What becomes of the line ends at the end of a block. -/
inductive Chomp where
  | strip
  | clip
  | keep
  deriving DecidableEq, Inhabited

def chomp? : Char → Option Chomp
  | '-' => some .strip
  | '+' => some .keep
  | _ => none

/-- How a block is to end and how far it is indented, in either order. -/
def blockHeader (c : Cursor) : Option (Chomp × Nat × Cursor) :=
  let indentOf (c : Cursor) : Option (Nat × Cursor) :=
    match c.head? with
    | some d => if d == '0' then none else if d.isDigit then some (d.toNat - 48, c.skip) else some (0, c)
    | none => some (0, c)
  match c.head?.bind chomp? with
  | some k => (indentOf c.skip).map fun (n, c) => (k, n, c)
  | none => (indentOf c).map fun (n, c) =>
    match if n = 0 then none else c.head?.bind chomp? with
    | some k => (k, n, c.skip)
    | none => (.clip, n, c)

/-- Passes over empty lines and the indentation of the next line. Gives the line ends and the widest
indentation met. An `indent` of zero is not known yet. -/
def blockGap (indent : Nat) : Nat → Cursor → Nat → List Char → Option (Nat × List Char × Cursor)
  | 0, c, widest, text => some (widest, text, c)
  | fuel + 1, c, widest, text =>
    let spaces := (c.rest.takeWhile (· == ' ')).length
    let c := c.skipMany (if indent = 0 then spaces else min spaces (indent - c.column))
    let widest := max widest c.column
    if (indent = 0 || c.column < indent) && c.isAt '\t' then none
    else if c.isAtAny isBreak then
      let (b, c) := c.breakLine
      blockGap indent fuel c widest (text ++ b)
    else some (widest, text, c)

structure Block where
  text : List Char := []
  lineEnd : List Char := []
  gap : List Char := []
  /-- The last line starts with a blank. -/
  isIndented : Bool := false

def blockLines (literal : Bool) (indent : Nat) : Nat → Cursor → Block → Option (Block × Cursor)
  | 0, c, b => some (b, c)
  | fuel + 1, c, b =>
    if c.column ≠ indent || c.rest.isEmpty then some (b, c)
    else
      let indented := c.isAtAny isBlank
      let folds := !literal && !b.isIndented && !indented && b.lineEnd.head? == some '\n'
      let joint := if !folds then b.lineEnd else if b.gap.isEmpty then [' '] else []
      let line := c.rest.takeWhile fun d => !isBreak d
      let text := b.text ++ joint ++ b.gap ++ line
      let (lineEnd, c) := (c.dropWhile fun d => !isBreak d).breakLine
      match blockGap indent (c.rest.length + 1) c 0 [] with
      | none => none
      | some (_, gap, c) => blockLines literal indent fuel c ⟨text, lineEnd, gap, indented⟩

/-- A block after its mark. `outer` is the indentation of what it stands in. -/
def block (literal : Bool) (outer : Int) (c : Cursor) : Option (List Char × Cursor) := do
  let (chomp, increment, c) ← blockHeader c
  let c := c.skipComment
  if !atBreak c.rest then none
  let c := c.breakLine.2
  let indent := if increment = 0 then 0 else (max outer 0).toNat + increment
  let (widest, gap, c) ← blockGap indent (c.rest.length + 1) c 0 []
  let indent := if indent = 0 then max (max widest (outer + 1).toNat) 1 else indent
  let (b, c) ← blockLines literal indent (c.rest.length + 1) c { gap := gap }
  let tail := match chomp with
    | .strip => []
    | .clip => b.lineEnd
    | .keep => b.lineEnd ++ b.gap
  some (b.text ++ tail, c)

end Faultline.Settings.Yaml
