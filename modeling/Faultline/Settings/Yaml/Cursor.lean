/-
# Settings.Yaml.Cursor — a place in a YAML text

A cursor knows the characters left and where they stand: how many came before, on
which line, in which column.
-/

namespace Faultline.Settings.Yaml

structure Cursor where
  rest : List Char
  index : Nat := 0
  line : Nat := 0
  column : Nat := 0
  deriving Inhabited

def isBlank (c : Char) : Bool := c == ' ' || c == '\t'

def isSeparator (c : Char) : Bool := c == '\u2028' || c == '\u2029'

def isBreak (c : Char) : Bool := c == '\n' || c == '\r' || c == '\u0085' || isSeparator c

def isWordChar (c : Char) : Bool := c.isAlphanum || c == '_' || c == '-'

def atBreak : List Char → Bool
  | [] => true
  | c :: _ => isBreak c

def atSpace : List Char → Bool
  | [] => true
  | c :: _ => isBlank c || isBreak c

namespace Cursor

def head? (c : Cursor) : Option Char := c.rest.head?

def isAt (c : Cursor) (d : Char) : Bool := c.rest.head? == some d

def isAtAny (c : Cursor) (p : Char → Bool) : Bool := c.rest.head?.any p

def skip (c : Cursor) : Cursor :=
  match c.rest with
  | [] => c
  | _ :: cs => { c with rest := cs, index := c.index + 1, column := c.column + 1 }

def breakLine (c : Cursor) : List Char × Cursor :=
  match c.rest with
  | '\r' :: '\n' :: cs => (['\n'], ⟨cs, c.index + 2, c.line + 1, 0⟩)
  | b :: cs =>
    if isBreak b then
      ([if isSeparator b then b else '\n'], ⟨cs, c.index + 1, c.line + 1, 0⟩)
    else ([], c)
  | [] => ([], c)

def dropWhile (p : Char → Bool) (c : Cursor) : Cursor :=
  let n := (c.rest.takeWhile p).length
  { c with rest := c.rest.drop n, index := c.index + n, column := c.column + n }

def skipComment (c : Cursor) : Cursor :=
  let c := c.dropWhile isBlank
  if c.isAt '#' then c.dropWhile fun d => !isBreak d else c

/-- Three marks at the start of a line, with nothing next to them. -/
def isMarker (mark : Char) (c : Cursor) : Bool :=
  c.column = 0 && c.rest.take 3 == [mark, mark, mark] && atSpace (c.rest.drop 3)

def isAnyMarker (c : Cursor) : Bool := c.isMarker '-' || c.isMarker '.'

end Cursor

end Faultline.Settings.Yaml
