/-
# Settings.Yaml.Node — the tree of a YAML document

A document is a scalar, a list or a mapping. Any node may be given a name by an
anchor and be referred to later on, even from within itself; so the named nodes are
kept in a table, and a reference holds a number of it.
-/
import Faultline.Settings.Yaml.Token

namespace Faultline.Settings.Yaml

inductive Node where
  /-- A scalar without quotes and tag is implicit. -/
  | scalar (text tag : String) (isImplicit : Bool)
  | list (items : List Node)
  | mapping (pairs : List (Node × Node))
  /-- The number of the reference itself, and of the node it names. -/
  | reference (number target : Nat)
  deriving Inhabited

def Node.absent : Node := .scalar "" "" true

structure Document where
  root : Node
  named : List (Nat × Node)
  deriving Inhabited

structure Known where
  handles : List (String × String) := []
  names : List (String × Nat) := []
  named : List (Nat × Node) := []
  next : Nat := 0

abbrev Read := StateT Known Scan

def refuse {α : Type} : Read α := fun _ => fail

def look : Read Token := fun k => do pure (← peek, k)

def drop : Read Unit := fun k => do pure (← take, k)

def fresh : Read Nat := do
  let k ← get
  set { k with next := k.next + 1 }
  pure k.next

/-! ## Properties of a node -/

def standardHandles : List (String × String) := [("!", "!"), ("!!", "tag:yaml.org,2002:")]

def anchor? : Read (Option String) := do
  match ← look with
  | .anchor name => do
    drop
    pure (some name)
  | _ => pure none

def tag? : Read (Option String) := do
  match ← look with
  | .tag handle suffix => do
    drop
    if handle.isEmpty then pure (some suffix)
    else match (← get).handles.lookup handle with
      | some start => pure (some (start ++ suffix))
      | none => refuse
  | _ => pure none

def properties : Read (Option String × Option String) := do
  match ← anchor? with
  | some a => do pure (some a, ← tag?)
  | none =>
    match ← tag? with
    | some t => do pure (← anchor?, some t)
    | none => pure (none, none)

/-! ## Nodes -/

/-- Tokens after which the value or key of a mapping in lines is not written. -/
def endsPair : Token → Bool
  | .key | .value | .blockEnd => true
  | _ => false

mutual

/-- A node. `block` says whether it may be a block, `indentless` whether it may be a list that is not
indented. -/
def node (block indentless : Bool) : Nat → Read Node
  | 0 => refuse
  | fuel + 1 => do
    match ← look with
    | .reference name => do
      drop
      match (← get).names.lookup name with
      | some target => do pure (.reference (← fresh) target)
      | none => refuse
    | _ =>
      let (name?, tag?) ← properties
      let number ← fresh
      match name? with
      | some name => modify fun k => { k with names := (name, number) :: k.names }
      | none => pure ()
      let n ← content block indentless name?.isSome (tag?.getD "") fuel
      if name?.isSome then modify fun k => { k with named := (number, n) :: k.named }
      pure n

def content (block indentless isNamed : Bool) (tag : String) : Nat → Read Node
  | 0 => refuse
  | fuel + 1 => do
    match ← look with
    | .entry => if indentless then do pure (.list (← indentlessItems fuel [])) else bare isNamed tag
    | .scalar text isPlain => do
      drop
      pure (.scalar text tag ((tag.isEmpty && isPlain) || tag == "!"))
    | .openBracket => do
      drop
      pure (.list (← bracketItems true fuel []))
    | .openBrace => do
      drop
      pure (.mapping (← bracePairs true fuel []))
    | .blockSequence =>
      if block then do
        drop
        pure (.list (← blockItems fuel []))
      else bare isNamed tag
    | .blockMapping =>
      if block then do
        drop
        pure (.mapping (← blockPairs fuel []))
      else bare isNamed tag
    | _ => bare isNamed tag

/-- A node of which there is only a name or a tag. -/
def bare (isNamed : Bool) (tag : String) : Read Node :=
  if isNamed || !tag.isEmpty then pure (.scalar "" tag tag.isEmpty) else refuse

def blockItems : Nat → List Node → Read (List Node)
  | 0, _ => refuse
  | fuel + 1, items => do
    match ← look with
    | .entry => do
      drop
      match ← look with
      | .entry | .blockEnd => blockItems fuel (.absent :: items)
      | _ => do blockItems fuel ((← node true false fuel) :: items)
    | .blockEnd => do
      drop
      pure items.reverse
    | _ => refuse

def indentlessItems : Nat → List Node → Read (List Node)
  | 0, _ => refuse
  | fuel + 1, items => do
    match ← look with
    | .entry => do
      drop
      match ← look with
      | .entry | .key | .value | .blockEnd => indentlessItems fuel (.absent :: items)
      | _ => do indentlessItems fuel ((← node true false fuel) :: items)
    | _ => pure items.reverse

def blockPairs : Nat → List (Node × Node) → Read (List (Node × Node))
  | 0, _ => refuse
  | fuel + 1, pairs => do
    match ← look with
    | .key => do
      drop
      let k ← if endsPair (← look) then pure Node.absent else node true true fuel
      let v ← blockValue fuel
      blockPairs fuel ((k, v) :: pairs)
    | .blockEnd => do
      drop
      pure pairs.reverse
    | _ => refuse

def blockValue : Nat → Read Node
  | 0 => refuse
  | fuel + 1 => do
    match ← look with
    | .value => do
      drop
      if endsPair (← look) then pure .absent else node true true fuel
    | _ => pure .absent

/-- The items within brackets. A key makes an item a mapping of one pair. -/
def bracketItems (first : Bool) : Nat → List Node → Read (List Node)
  | 0, _ => refuse
  | fuel + 1, items => do
    match ← look with
    | .closeBracket => do
      drop
      pure items.reverse
    | t => do
      if !first then
        if t != .comma then refuse
        drop
      match ← look with
      | .closeBracket => do
        drop
        pure items.reverse
      | .key => do
        drop
        let k ← match ← look with
          | .value | .comma | .closeBracket => do
            drop
            pure Node.absent
          | _ => node false false fuel
        let v ← bracketValue fuel
        bracketItems false fuel (.mapping [(k, v)] :: items)
      | _ => do bracketItems false fuel ((← node false false fuel) :: items)

def bracketValue : Nat → Read Node
  | 0 => refuse
  | fuel + 1 => do
    match ← look with
    | .value => do
      drop
      match ← look with
      | .comma | .closeBracket => pure .absent
      | _ => node false false fuel
    | _ => pure .absent

/-- The pairs within braces. An item without a key has no value. -/
def bracePairs (first : Bool) : Nat → List (Node × Node) → Read (List (Node × Node))
  | 0, _ => refuse
  | fuel + 1, pairs => do
    match ← look with
    | .closeBrace => do
      drop
      pure pairs.reverse
    | t => do
      if !first then
        if t != .comma then refuse
        drop
      match ← look with
      | .closeBrace => do
        drop
        pure pairs.reverse
      | .key => do
        drop
        let k ← match ← look with
          | .value | .comma | .closeBrace => pure Node.absent
          | _ => node false false fuel
        let v ← braceValue fuel
        bracePairs false fuel ((k, v) :: pairs)
      | _ => do
        let k ← node false false fuel
        let _ ← look
        bracePairs false fuel ((k, .absent) :: pairs)

def braceValue : Nat → Read Node
  | 0 => refuse
  | fuel + 1 => do
    match ← look with
    | .value => do
      drop
      match ← look with
      | .comma | .closeBrace => pure .absent
      | _ => node false false fuel
    | _ => pure .absent

end

/-! ## Documents -/

/-- The directives before a document: one version, which must be 1.1, and a prefix for each handle. -/
def directives (versioned : Bool) : Nat → Read Unit
  | 0 => refuse
  | fuel + 1 => do
    match ← look with
    | .version major minor => do
      if versioned || major ≠ 1 || minor ≠ 1 then refuse
      drop
      directives true fuel
    | .tagPrefix handle text => do
      let k ← get
      if (k.handles.lookup handle).isSome then refuse
      set { k with handles := k.handles ++ [(handle, text)] }
      drop
      directives versioned fuel
    | _ => modify fun k => { k with handles := k.handles ++ standardHandles }

def document? (fuel : Nat) : Read (Option Node) := do
  match ← look with
  | .textEnd => pure none
  | .version _ _ | .tagPrefix _ _ | .documentStart => do
    directives false fuel
    if (← look) != .documentStart then refuse
    drop
    let n ← match ← look with
      | .version _ _ | .tagPrefix _ _ | .documentStart | .documentEnd | .textEnd => pure Node.absent
      | _ => node true false fuel
    let _ ← look
    pure (some n)
  | _ => do
    directives false fuel
    let n ← node true false fuel
    let _ ← look
    pure (some n)

/-- Reads a text. The outer option is a failure, the inner one a text without documents. -/
def read (text : String) : Option (Option Document) := do
  let s ← Scanner.ofText? text
  let ((root?, k), _) ← ((document? (8 * text.length + 32)).run {}).run s
  some (root?.map fun root => ⟨root, k.named⟩)

end Faultline.Settings.Yaml
