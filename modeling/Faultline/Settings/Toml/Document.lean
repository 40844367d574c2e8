/-
# Settings.Toml.Document — the tables of a TOML file

A file is a sequence of lines: table headers, and keys with their values. `Tables`
tells what stands under which key. A key may be given again in two cases: a table
that was only implied, by a longer key or by the header of a table inside of it, may
be given once; and a key that now gets a list, or that last got one, may be given
anew.
-/
import Faultline.Settings.Toml.Scalar

namespace Faultline.Settings.Toml

abbrev Key := List String

inductive Entry where
  | value (v : Value)
  | table
  /-- A list of tables, of which the last one is open. -/
  | tables
  deriving Inhabited

structure Tables where
  entries : List (Key × Entry) := []
  implied : List Key := []
  lists : List Key := []
  deriving Inhabited

namespace Tables

def find? (t : Tables) (k : Key) : Option Entry := t.entries.lookup k

def put (t : Tables) (k : Key) (e : Entry) : Tables :=
  { t with entries := t.entries.filter (fun x => x.1 != k) ++ [(k, e)] }

def clear (t : Tables) (k : Key) : Tables :=
  { t with entries := t.entries.filter fun x => !(k.isPrefixOf x.1 && x.1 != k) }

def imply (t : Tables) (k : Key) : Tables :=
  { t with implied := k :: t.implied.filter (· != k) }

def settle (t : Tables) (k : Key) : Tables :=
  { t with implied := t.implied.filter (· != k) }

/-- Remembers whether a key of a table got a list. A key without characters stands for its table. -/
def mark (t : Tables) (outer : Key) (name : String) (isList : Bool) : Tables :=
  let k := if name.isEmpty then outer else outer ++ [name]
  let k := if k.isEmpty then [""] else k
  let rest := t.lists.filter (· != k)
  { t with lists := if isList then k :: rest else rest }

def leads (t : Tables) (outer : Key) : Bool :=
  (List.range outer.length).all fun n =>
    match t.find? (outer.take (n + 1)) with
    | some .table | some .tables => true
    | _ => false

def set (t : Tables) (outer : Key) (name : String) (e : Entry) : Except Error Tables :=
  let k := outer ++ [name]
  if !t.leads outer then malformed
  else match t.find? k with
    | none => .ok (t.put k e)
    | some _ =>
      if t.lists.contains k then .ok (((t.settle k).clear k).put k e)
      else if t.implied.contains k then .ok (t.settle k)
      else malformed

def lead (t : Tables) (outer : Key) : List String → Except Error Tables
  | [] => .ok t
  | name :: rest =>
    let k := outer ++ [name]
    match t.find? k with
    | some (.value _) => malformed
    | some _ => lead t k rest
    | none => lead ((t.imply k).put k .table) k rest

def openTable (t : Tables) (k : Key) : Except Error Tables := do
  let t ← t.lead [] k.dropLast
  t.set k.dropLast (k.getLastD "") .table

def openNext (t : Tables) (k : Key) : Except Error Tables := do
  let t ← t.lead [] k.dropLast
  match t.find? k with
  | none => .ok (t.put k .tables)
  | some .tables => .ok (t.clear k)
  | some _ => malformed

/-- The tables a key with dots names before its last part, implied one after the other. -/
def openImplied (t : Tables) (outer : Key) : List String → Except Error Tables
  | [] => .ok t
  | name :: rest => do
    let k := outer ++ [name]
    let t ← (t.imply k).openTable k
    t.openImplied k rest

end Tables

/-! ## Reading -/

structure Cursor where
  rest : List Char
  tables : Tables := {}

abbrev Read := StateT Cursor (Except Error)

def fail {α : Type} : Read α := throw .malformed

def chars : Read (List Char) := do pure (← get).rest

def setChars (cs : List Char) : Read Unit := modify fun c => { c with rest := cs }

def peek? : Read (Option Char) := do pure (← chars).head?

def advance : Read Unit := modify fun c => { c with rest := c.rest.tail }

def change (f : Tables → Except Error Tables) : Read Unit := do
  let c ← get
  match f c.tables with
  | .ok t => set { c with tables := t }
  | .error e => throw e

def skipBlanks : Read Unit := modify fun c => { c with rest := c.rest.dropWhile isBlank }

def comment : Read Unit := do
  let cs ← chars
  let isBody := fun (c : Char) => !isLineEnd c
  if (cs.takeWhile isBody).any isControl then fail
  setChars (cs.dropWhile isBody)

def skipLines : Nat → Read Unit
  | 0 => pure ()
  | fuel + 1 => do
    skipBlanks
    match ← peek? with
    | some '#' => do
      comment
      skipLines fuel
    | some '\n' | some '\r' => do
      advance
      skipLines fuel
    | _ => pure ()

def skipAll : Read Unit := do
  skipLines (2 * (← chars).length + 1)

/-- Nothing but a comment follows on the line. A zero character ends the whole text. -/
def lineEnd : Read Unit := do
  skipBlanks
  match ← chars with
  | [] | '\n' :: _ | '\r' :: _ => pure ()
  | '#' :: _ => comment
  | c :: _ => if c.toNat = 0 then setChars [] else fail

def isBareKey (c : Char) : Bool := c.isAlphanum || c == '_' || c == '-'

def keyPart : Read String := do
  let quoted (quote : Char) (cs : List Char) : Read String :=
    match shortText quote cs with
    | .ok (s, rest) => do
      setChars rest
      pure s
    | .error e => throw e
  match ← chars with
  | '"' :: cs => quoted '"' cs
  | '\'' :: cs => quoted '\'' cs
  | cs =>
    let name := cs.takeWhile isBareKey
    if name.isEmpty then fail
    else do
      setChars (cs.drop name.length)
      pure (String.ofList name)

def key : Nat → Read Key
  | 0 => fail
  | fuel + 1 => do
    skipBlanks
    let part ← keyPart
    skipBlanks
    if (← peek?) == some '.' then
      advance
      pure (part :: (← key fuel))
    else pure [part]

/-! ## Values -/

mutual

def value (outer : Key) (name : String) (inList : Bool) : Nat → Read Value
  | 0 => fail
  | fuel + 1 => do
    skipBlanks
    match ← chars with
    | '[' :: cs => do
      setChars cs
      change fun t => .ok (t.mark outer name true)
      pure (.list (← listItems outer name fuel []))
    | '\x7b' :: cs => do
      setChars cs
      let k := outer ++ [name]
      change fun t => if inList then (t.imply k).openNext k else (t.imply k).openTable k
      skipBlanks
      if (← peek?) == some '\x7d' then
        advance
        pure .table
      else
        tableItems k fuel
        pure .table
    | cs =>
      match scalar cs with
      | .ok (v, rest) => do
        setChars rest
        pure v
      | .error e => throw e

def listItems (outer : Key) (name : String) : Nat → List Value → Read (List Value)
  | 0, _ => fail
  | fuel + 1, items => do
    skipAll
    if (← peek?) == some ']' then
      advance
      pure items.reverse
    else
      let v ← value outer name true fuel
      skipAll
      match ← peek? with
      | some ',' => do
        advance
        listItems outer name fuel (v :: items)
      | some ']' => listItems outer name fuel (v :: items)
      | _ => fail

def tableItems (outer : Key) : Nat → Read Unit
  | 0 => fail
  | fuel + 1 => do
    item outer fuel
    skipBlanks
    match ← peek? with
    | some ',' => do
      advance
      tableItems outer fuel
    | some '\x7d' => advance
    | _ => fail

def item (outer : Key) : Nat → Read Unit
  | 0 => fail
  | fuel + 1 => do
    let k ← key fuel
    if (← peek?) != some '=' then fail
    advance
    let name := k.getLastD ""
    change fun t => t.openImplied outer k.dropLast
    let inner := outer ++ k.dropLast
    let v ← value inner name false fuel
    let isList := match v with
      | .list _ => true
      | _ => false
    change fun t =>
      match v with
      | .table =>
        if t.lists.contains (inner ++ [name]) then
          .ok ((t.settle (inner ++ [name])).put (inner ++ [name]) .table)
        else t.set inner name .table
      | v => t.set inner name (.value v)
    change fun t => .ok (t.mark inner name isList)

end

/-! ## Lines -/

/-- One line: a table header, or a key with its value in the open table. Gives the table that is open
afterwards. -/
def line (current : Key) : Read Key := do
  let fuel := (← chars).length + 1
  match ← chars with
  | '[' :: '[' :: cs => do
    setChars cs
    let k ← key fuel
    match ← chars with
    | ']' :: ']' :: cs => do
      setChars cs
      change fun t => t.openNext k
      change fun t => .ok (t.mark k "" false)
      lineEnd
      pure k
    | _ => fail
  | '[' :: cs => do
    setChars cs
    let k ← key fuel
    match ← chars with
    | ']' :: cs => do
      setChars cs
      change fun t => t.openTable k
      change fun t => .ok (t.mark k "" false)
      lineEnd
      pure k
    | _ => fail
  | _ => do
    item current (2 * fuel)
    lineEnd
    pure current

def document : Nat → Key → Read Unit
  | 0, _ => fail
  | fuel + 1, current => do
    skipAll
    if (← chars).isEmpty then pure () else document fuel (← line current)

/-- The first characters in which a zero counts as a sign of another encoding. -/
def probe : Nat := 6

/-- The tables of a file. A replacement character in the text stands for a damaged file. -/
def read (text : String) : Except Error Tables :=
  if (text.toUTF8.toList.take probe).contains 0 || text.contains (Char.ofNat 0xfffd) then malformed
  else ((document (text.length + 2) []).run { rest := text.toList }).map fun (_, c) => c.tables

end Faultline.Settings.Toml
