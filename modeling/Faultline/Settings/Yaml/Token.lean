/-
# Settings.Yaml.Token — the tokens of a YAML text

Blocks are marked by indentation alone, so the start and the end of each become
tokens of their own. A key is often seen only by the colon behind it: a scalar, an
alias or a bracketed value that could be one is remembered, and when the colon comes
on the same line, the marks of a key are put in front of it. For this reason tokens
wait in a queue until no such key can be in front of them.
-/
import Faultline.Settings.Yaml.Scalar
import Faultline.Text.Bytes

namespace Faultline.Settings.Yaml

inductive Token where
  | textEnd
  | version (major minor : Nat)
  | tagPrefix (handle text : String)
  | documentStart
  | documentEnd
  | blockSequence
  | blockMapping
  | blockEnd
  | openBracket
  | closeBracket
  | openBrace
  | closeBrace
  | entry
  | comma
  | key
  | value
  | reference (name : String)
  | anchor (name : String)
  | tag (handle suffix : String)
  | scalar (text : String) (isPlain : Bool)
  deriving DecidableEq, Inhabited

structure Candidate where
  isPossible : Bool := false
  /-- Nothing but a key can stand here. -/
  isRequired : Bool := false
  number : Nat := 0
  index : Nat := 0
  line : Nat := 0
  column : Nat := 0
  deriving Inhabited

structure Scanner where
  cursor : Cursor
  queue : List Token := []
  taken : Nat := 0
  indent : Int := -1
  outer : List Int := []
  depth : Nat := 0
  /-- The candidate of each bracket, the innermost first. -/
  candidate : Candidate := {}
  candidates : List Candidate := []
  keyAllowed : Bool := true
  deriving Inhabited

abbrev Scan := StateT Scanner Option

def fail {α : Type} : Scan α := fun _ => none

def cursor : Scan Cursor := do pure (← get).cursor

def setCursor (c : Cursor) : Scan Unit := modify fun s => { s with cursor := c }

def allowKey (b : Bool) : Scan Unit := modify fun s => { s with keyAllowed := b }

def inBlock : Scan Bool := do pure ((← get).depth = 0)

def push (t : Token) : Scan Unit := modify fun s => { s with queue := s.queue ++ [t] }

def pushBefore (number : Nat) (t : Token) : Scan Unit :=
  modify fun s =>
    let n := number - s.taken
    { s with queue := s.queue.take n ++ t :: s.queue.drop n }

/-! ## Candidates -/

/-- A key stands on one line, and its colon is not far. -/
def isStale (k : Candidate) (c : Cursor) : Bool :=
  k.line < c.line || k.index + 1024 < c.index

def isLive : Scan Bool := do
  let s ← get
  let k := s.candidate
  if !k.isPossible then pure false
  else if isStale k s.cursor then
    if k.isRequired then fail
    set { s with candidate := { k with isPossible := false } }
    pure false
  else pure true

def dropCandidate : Scan Unit := do
  let s ← get
  if s.candidate.isPossible then
    if s.candidate.isRequired then fail
    set { s with candidate := { s.candidate with isPossible := false } }

def noteCandidate : Scan Unit := do
  let s ← get
  if s.keyAllowed then
    dropCandidate
    let c := s.cursor
    modify fun t => { t with candidate :=
      { isPossible := true, isRequired := s.depth = 0 && s.indent = c.column,
        number := s.taken + s.queue.length, index := c.index, line := c.line, column := c.column } }

/-! ## Blocks -/

/-- Opens a block in a column, unless one is open there; its token goes where it is told. -/
def openBlock (column : Nat) (insert : Token → Scan Unit) (t : Token) : Scan Unit := do
  let s ← get
  if s.depth = 0 && s.indent < column then
    set { s with outer := s.indent :: s.outer, indent := column }
    insert t

def closing : Int → List Int → Int → Nat × Int × List Int
  | indent, [], column => if indent > column then (1, -1, []) else (0, indent, [])
  | indent, o :: os, column =>
    if indent > column then
      let (n, i, rest) := closing o os column
      (n + 1, i, rest)
    else (0, indent, o :: os)

def closeBlocks (column : Int) : Scan Unit := do
  let s ← get
  if s.depth = 0 then
    let (n, indent, outer) := closing s.indent s.outer column
    set { s with indent := indent, outer := outer, queue := s.queue ++ List.replicate n Token.blockEnd }

/-! ## Space -/

/-- Passes over space and comments. A tab may not stand where a key could. -/
def skipSpaceFrom (flow : Bool) : Nat → Cursor → Bool → Cursor × Bool
  | 0, c, keyAllowed => (c, keyAllowed)
  | fuel + 1, c, keyAllowed =>
    let c := c.dropWhile fun d => d == ' ' || ((flow || !keyAllowed) && d == '\t')
    let c := if c.isAt '#' then c.dropWhile fun d => !isBreak d else c
    if c.isAtAny isBreak then skipSpaceFrom flow fuel c.breakLine.2 (!flow || keyAllowed)
    else (c, keyAllowed)

def skipSpace : Scan Unit :=
  modify fun s =>
    let (c, keyAllowed) := skipSpaceFrom (s.depth > 0) (s.cursor.rest.length + 1) s.cursor s.keyAllowed
    { s with cursor := c, keyAllowed := keyAllowed }

/-! ## Directives, anchors and tags -/

def word (c : Cursor) : String × Cursor :=
  (String.ofList (c.rest.takeWhile isWordChar), c.dropWhile isWordChar)

def versionNumber (c : Cursor) : Option (Nat × Cursor) :=
  let ds := c.rest.takeWhile Char.isDigit
  if ds.isEmpty || ds.length > 2 then none
  else (Text.digits 10 100 ds).toOption.map (·, c.dropWhile Char.isDigit)

/-- A handle: a word between exclamation marks, of which the second may be missing. -/
def tagHandle (c : Cursor) : Option (String × Cursor) :=
  if !c.isAt '!' then none
  else
    let (name, c) := word c.skip
    if c.isAt '!' then some ("!" ++ name ++ "!", c.skip) else some ("!" ++ name, c)

def isTagChar (c : Char) : Bool :=
  isWordChar c || [';', '/', '?', ':', '@', '&', '=', '+', '$', ',', '.', '!', '~', '*', '\'', '(', ')',
    '[', ']', '%'].contains c

def sequenceLength (b : Nat) : Nat :=
  if b < 0x80 then 1 else if b < 0xc0 then 0 else if b < 0xe0 then 2 else if b < 0xf0 then 3
  else if b < 0xf8 then 4 else 0

def escapedByte? : List Char → Option Nat
  | '%' :: a :: b :: _ => (Text.digits 16 256 [a, b]).toOption
  | _ => none

def escapedTail : Nat → Cursor → List UInt8 → Option (List UInt8 × Cursor)
  | 0, c, bytes => some (bytes, c)
  | n + 1, c, bytes => do
    let b ← escapedByte? c.rest
    if b < 0x80 || b ≥ 0xc0 then none
    escapedTail n (c.skipMany 3) (bytes ++ [b.toUInt8])

def tagBytes : Nat → Cursor → List UInt8 → Option (List UInt8 × Cursor)
  | 0, c, bytes => some (bytes, c)
  | fuel + 1, c, bytes =>
    match c.head? with
    | none => some (bytes, c)
    | some d =>
      if !isTagChar d then some (bytes, c)
      else if d == '%' then do
        let b ← escapedByte? c.rest
        if sequenceLength b = 0 then none
        let (bytes, c) ← escapedTail (sequenceLength b - 1) (c.skipMany 3) (bytes ++ [b.toUInt8])
        tagBytes fuel c bytes
      else tagBytes fuel c.skip (bytes ++ (String.singleton d).toUTF8.toList)

/-- The characters of a tag after a handle. There must be some, unless there is a handle. -/
def tagText (hasHandle : Bool) (c : Cursor) : Option (String × Cursor) := do
  let (bytes, c') ← tagBytes (c.rest.length + 1) c []
  if !hasHandle && c'.index = c.index then none
  some (Text.shown bytes, c')

def directive (c : Cursor) : Option (Token × Cursor) := do
  let (name, c) := word c.skip
  if name.isEmpty || !atSpace c.rest then none
  let (t, c) ← match name with
    | "YAML" => do
      let (major, c) ← versionNumber (c.dropWhile isBlank)
      if !c.isAt '.' then none
      let (minor, c) ← versionNumber c.skip
      some (Token.version major minor, c)
    | "TAG" => do
      let (handle, c) ← tagHandle (c.dropWhile isBlank)
      if !(handle == "!" || (handle.length > 1 && handle.endsWith "!")) || !c.isAtAny isBlank then none
      let (text, c) ← tagText false (c.dropWhile isBlank)
      if !atSpace c.rest then none
      some (Token.tagPrefix handle text, c)
    | _ => none
  let c := c.skipComment
  if !atBreak c.rest then none
  some (t, c.breakLine.2)

def anchorName (c : Cursor) : Option (String × Cursor) :=
  let (name, c) := word c.skip
  let ends := atSpace c.rest || c.isAtAny fun d => ['?', ':', ',', ']', '\x7d', '%', '@', '\x60'].contains d
  if name.isEmpty || !ends then none else some (name, c)

def tagToken (c : Cursor) : Option (Token × Cursor) := do
  let (t, c) ← if c.rest.tail.head? == some '<' then do
      let (text, c) ← tagText false c.skip.skip
      if !c.isAt '>' then none
      some (Token.tag "" text, c.skip)
    else do
      let (handle, c) ← tagHandle c
      if handle.length > 1 && handle.endsWith "!" then
        let (text, c) ← tagText false c
        some (Token.tag handle text, c)
      else
        let (text, c) ← tagText true c
        let suffix := (handle.drop 1).toString ++ text
        some (if suffix.isEmpty then Token.tag "" "!" else Token.tag "!" suffix, c)
  if atSpace c.rest then some (t, c) else none

/-! ## Making tokens -/

def skipOne (n : Nat) : Scan Unit := do setCursor ((← cursor).skipMany n)

def orFail {α : Type} (o : Option α) : Scan α := fun s => o.map (·, s)

/-- Whatever cannot stand within a block: all blocks end, and no key is in sight. -/
def outOfBlocks : Scan Unit := do
  closeBlocks (-1)
  dropCandidate
  allowKey false

def openFlow (t : Token) : Scan Unit := do
  noteCandidate
  modify fun s => { s with
    candidates := s.candidate :: s.candidates, candidate := {}, depth := s.depth + 1, keyAllowed := true }
  skipOne 1
  push t

def closeFlow (t : Token) : Scan Unit := do
  dropCandidate
  modify fun s => match s.candidates with
    | k :: ks => { s with candidate := k, candidates := ks, depth := s.depth - 1, keyAllowed := false }
    | [] => { s with keyAllowed := false }
  skipOne 1
  push t

def fetchComma : Scan Unit := do
  dropCandidate
  allowKey true
  skipOne 1
  push .comma

def fetchEntry : Scan Unit := do
  if ← inBlock then
    if !(← get).keyAllowed then fail
    openBlock (← cursor).column push .blockSequence
  dropCandidate
  allowKey true
  skipOne 1
  push .entry

def fetchKey : Scan Unit := do
  if ← inBlock then
    if !(← get).keyAllowed then fail
    openBlock (← cursor).column push .blockMapping
  dropCandidate
  allowKey (← inBlock)
  skipOne 1
  push .key

def fetchValue : Scan Unit := do
  if ← isLive then
    let k := (← get).candidate
    pushBefore k.number .key
    openBlock k.column (pushBefore k.number) .blockMapping
    modify fun s => { s with candidate := { k with isPossible := false }, keyAllowed := false }
  else
    if ← inBlock then
      if !(← get).keyAllowed then fail
      openBlock (← cursor).column push .blockMapping
    allowKey (← inBlock)
  skipOne 1
  push .value

def fetchNode (r : Cursor → Option (Token × Cursor)) : Scan Unit := do
  noteCandidate
  allowKey false
  let (t, c) ← orFail (r (← cursor))
  setCursor c
  push t

def fetchBlock (literal : Bool) : Scan Unit := do
  dropCandidate
  allowKey true
  let (text, c) ← orFail (block literal (← get).indent (← cursor).skip)
  setCursor c
  push (.scalar (String.ofList text) false)

def fetchQuoted (quote : Char) : Scan Unit :=
  fetchNode fun c => (quoted quote (c.rest.length + 1) c.skip []).map fun (text, c) =>
    (.scalar (String.ofList text) false, c)

def fetchPlain : Scan Unit := do
  noteCandidate
  allowKey false
  let s ← get
  let c := s.cursor
  let (text, broken, c) ← orFail (plain (s.depth > 0) (s.indent + 1) (c.rest.length + 1) c {} [])
  setCursor c
  if broken then allowKey true
  push (.scalar (String.ofList text) true)

def startsPlain (flow : Bool) (cs : List Char) : Bool :=
  match cs with
  | [] => false
  | c :: cs =>
    let marks := ['-', '?', ':', ',', '[', ']', '\x7b', '\x7d', '#', '&', '*', '!', '|', '>', '\'', '"',
      '%', '@', '\x60']
    !(isBlank c || isBreak c || marks.contains c) || (c == '-' && !(cs.head?.any isBlank))
      || (!flow && (c == '?' || c == ':') && !atSpace cs)

/-- Makes the next token, with the tokens of blocks before it. -/
def fetch : Scan Unit := do
  skipSpace
  closeBlocks (← cursor).column
  let c ← cursor
  let flow := !(← inBlock)
  match c.rest with
  | [] => do
    setCursor (if c.column = 0 then c else { c with column := 0, line := c.line + 1 })
    outOfBlocks
    push .textEnd
  | d :: ds =>
    if c.column = 0 && d == '%' then do
      outOfBlocks
      let (t, c) ← orFail (directive (← cursor))
      setCursor c
      push t
    else if c.isMarker '-' then do
      outOfBlocks
      skipOne 3
      push .documentStart
    else if c.isMarker '.' then do
      outOfBlocks
      skipOne 3
      push .documentEnd
    else if d == '[' then openFlow .openBracket
    else if d == '\x7b' then openFlow .openBrace
    else if d == ']' then closeFlow .closeBracket
    else if d == '\x7d' then closeFlow .closeBrace
    else if d == ',' then fetchComma
    else if d == '-' && atSpace ds then fetchEntry
    else if d == '?' && (flow || atSpace ds) then fetchKey
    else if d == ':' && (flow || atSpace ds) then fetchValue
    else if d == '*' then fetchNode fun c => (anchorName c).map fun (n, c) => (.reference n, c)
    else if d == '&' then fetchNode fun c => (anchorName c).map fun (n, c) => (.anchor n, c)
    else if d == '!' then fetchNode tagToken
    else if d == '|' && !flow then fetchBlock true
    else if d == '>' && !flow then fetchBlock false
    else if d == '\'' then fetchQuoted '\''
    else if d == '"' then fetchQuoted '"'
    else if startsPlain flow c.rest then fetchPlain
    else fail

/-- Gives up a candidate that is too far back, in the list of all. -/
def settle (c : Cursor) (number : Nat) : List Candidate → Option (Bool × List Candidate)
  | [] => some (false, [])
  | k :: ks =>
    if k.isPossible && k.number = number then
      if !isStale k c then some (true, k :: ks)
      else if k.isRequired then none
      else some (false, { k with isPossible := false } :: ks)
    else (settle c number ks).map fun (b, ks) => (b, k :: ks)

def isPending : Scan Bool := do
  let s ← get
  match settle s.cursor s.taken (s.candidate :: s.candidates) with
  | none => fail
  | some (b, k :: ks) => do
    set { s with candidate := k, candidates := ks }
    pure b
  | some (b, []) => pure b

def ready : Nat → Scan Unit
  | 0 => fail
  | fuel + 1 => do
    let more ← if (← get).queue.isEmpty then pure true else isPending
    if more then
      fetch
      ready fuel

def peek : Scan Token := do
  ready (2 * (← cursor).rest.length + (← get).queue.length + 3)
  match (← get).queue with
  | t :: _ => pure t
  | [] => fail

def take : Scan Unit :=
  modify fun s => { s with queue := s.queue.tail, taken := s.taken + 1 }

/-! ## Texts -/

def isAllowed (c : Char) : Bool :=
  let n := c.toNat
  n = 9 || n = 10 || n = 13 || (0x20 ≤ n && n ≤ 0x7e) || n = 0x85 || (0xa0 ≤ n && n ≤ 0xfffd) || 0x10000 ≤ n

def Scanner.ofText? (text : String) : Option Scanner :=
  let cs := match text.toList with
    | '\ufeff' :: cs => cs
    | cs => cs
  if cs.all isAllowed then some { cursor := { rest := cs } } else none

end Faultline.Settings.Yaml
