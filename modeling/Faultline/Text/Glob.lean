/-
# Text.Glob — patterns for names

In a pattern `*` stands for any run of bytes without `/`, `?` for one character
other than `/`, `[…]` for one character in (or, with `^`, outside) the listed
ranges, and `\` makes the next character stand for itself. A pattern is cut at its
stars into chunks. A chunk after a star is placed at the first position where it
fits, the last one where it also reaches the end; a star never has to be tried
again.
-/
import Faultline.Text.Bytes

namespace Faultline.Text.Glob

inductive Item where
  | char (c : Char)
  | any
  | ranges (outside : Bool) (ranges : List (Char × Char))
  deriving DecidableEq, Inhabited

structure Chunk where
  star : Bool
  items : List Item
  deriving DecidableEq, Inhabited

/-! ## Reading a pattern -/

/-- The length of a chunk: up to the next star that is not inside brackets. A backslash covers
what follows it. -/
def chunkLength : List Char → Bool → Nat
  | [], _ => 0
  | '\\' :: _ :: cs, inside => 2 + chunkLength cs inside
  | '[' :: cs, _ => 1 + chunkLength cs true
  | ']' :: cs, _ => 1 + chunkLength cs false
  | c :: cs, inside => if c = '*' && !inside then 0 else 1 + chunkLength cs inside

/-- One end of a range, which something has to follow. -/
def rangeEnd : List Char → Option (Char × List Char)
  | '\\' :: c :: d :: cs => some (c, d :: cs)
  | c :: d :: cs => if c = '-' || c = ']' || c = '\\' then none else some (c, d :: cs)
  | _ => none

def readRanges : Nat → List Char → List (Char × Char) → Option (List (Char × Char) × List Char)
  | 0, _, _ => none
  | fuel + 1, cs, ranges =>
    match cs, ranges with
    | ']' :: cs, _ :: _ => some (ranges.reverse, cs)
    | cs, ranges => do
      let (lo, cs) ← rangeEnd cs
      match cs with
      | '-' :: cs => do
        let (hi, cs) ← rangeEnd cs
        readRanges fuel cs ((lo, hi) :: ranges)
      | cs => readRanges fuel cs ((lo, lo) :: ranges)

def readItems : Nat → List Char → Option (List Item)
  | 0, _ => none
  | _, [] => some []
  | fuel + 1, '[' :: cs => do
    let (outside, cs) := match cs with
      | '^' :: cs => (true, cs)
      | cs => (false, cs)
    let (ranges, cs) ← readRanges (cs.length + 1) cs []
    pure (.ranges outside ranges :: (← readItems fuel cs))
  | fuel + 1, '?' :: cs => do pure (.any :: (← readItems fuel cs))
  | _, ['\\'] => none
  | fuel + 1, '\\' :: c :: cs => do pure (.char c :: (← readItems fuel cs))
  | fuel + 1, c :: cs => do pure (.char c :: (← readItems fuel cs))

def readChunks : Nat → List Char → Option (List Chunk)
  | 0, _ => none
  | _, [] => some []
  | fuel + 1, cs => do
    let star := cs.head? == some '*'
    let cs := cs.dropWhile (· == '*')
    let n := chunkLength cs false
    let items ← readItems (n + 1) (cs.take n)
    pure (⟨star, items⟩ :: (← readChunks fuel (cs.drop n)))

def read (pattern : String) : Option (List Chunk) :=
  readChunks (pattern.length + 1) pattern.toList

/-! ## Holding a name against it -/

def dropBytes : Bytes → Bytes → Option Bytes
  | [], s => some s
  | b :: bs, c :: s => if b = c then dropBytes bs s else none
  | _ :: _, [] => none

def slash : UInt8 := 47

def fits1 : Item → Bytes → Option Bytes
  | .char c, s => dropBytes (utf8 (String.singleton c)) s
  | _, [] => none
  | .any, b :: s => if b = slash then none else some (front b s).2
  | .ranges outside ranges, b :: s =>
    let (c, s) := front b s
    let inside := ranges.any fun (lo, hi) => lo ≤ c && c ≤ hi
    if inside = outside then none else some s

/-- What is left of a name after a chunk at its front. -/
def fits : List Item → Bytes → Option Bytes
  | [], s => some s
  | i :: is, s => (fits1 i s).bind (fits is)

/-- What is left after a chunk at the first suitable place that a star can reach. -/
def seek (items : List Item) (isLast : Bool) : Bytes → Option Bytes
  | [] => none
  | b :: s =>
    if b = slash then none
    else match fits items s with
      | some rest => if isLast && !rest.isEmpty then seek items isLast s else some rest
      | none => seek items isLast s

def place (c : Chunk) (isLast : Bool) (s : Bytes) : Option Bytes :=
  match fits c.items s with
  | some rest =>
    if rest.isEmpty || !isLast then some rest
    else if c.star then seek c.items isLast s else none
  | none => if c.star then seek c.items isLast s else none

def matchesBytes : List Chunk → Bytes → Bool
  | [], s => s.isEmpty
  | c :: cs, s =>
    if c.star && c.items.isEmpty then !s.contains slash
    else match place c cs.isEmpty s with
      | some rest => matchesBytes cs rest
      | none => false

def matches? (pattern : String) (name : Bytes) : Option Bool :=
  (read pattern).map fun chunks => matchesBytes chunks name

end Faultline.Text.Glob
