/-
# Settings.Yaml — settings from a YAML file

A file of settings is one mapping. Unknown keys and keys given twice are malformed.
The key `<<` takes in another mapping, or a list of them of which the first counts
most; what it sets may be set again.

A text takes any scalar as written, or its bytes if it is called binary; a number
takes a whole number, or the whole part of a fraction; a value that means nothing
sets a blank.
-/
import Faultline.Settings.Basic
import Faultline.Settings.Yaml.Meaning
import Faultline.Settings.Yaml.Node
import Faultline.Text.Base64

namespace Faultline.Settings.Yaml

def resolved (d : Document) : Node → Node
  | .reference _ target => (d.named.lookup target).getD .absent
  | n => n

def scalarMeaning? (text tag : String) (isImplicit : Bool) : Option Meaning :=
  if tag.isEmpty && !isImplicit then some .text else meaning? tag text

def textOf? (d : Document) (n : Node) : Option String :=
  match resolved d n with
  | .scalar text tag isImplicit =>
    if tag == common ++ "binary" then
      (Text.Base64.decode text).map Text.shown
    else (scalarMeaning? text tag isImplicit).map fun m => if m = .null then "" else text
  | _ => none

def boolOf? (d : Document) (n : Node) : Option Bool :=
  match resolved d n with
  | .scalar text tag isImplicit =>
    match scalarMeaning? text tag isImplicit with
    | some .null => some false
    | some (.bool b) => some b
    | _ => none
  | _ => none

def numberOf? (d : Document) (n : Node) : Option Int :=
  match resolved d n with
  | .scalar text tag isImplicit =>
    match scalarMeaning? text tag isImplicit with
    | some .null => some 0
    | some (.int n) => if n < twoPow 63 then some n else none
    | some (.fraction word?) => word?
    | _ => none
  | _ => none

def listOf? (d : Document) (n : Node) : Option (List String) :=
  match resolved d n with
  | .scalar text tag isImplicit =>
    if scalarMeaning? text tag isImplicit = some .null then some [] else none
  | .list items => items.mapM (textOf? d)
  | _ => none

def assign (d : Document) (s : Settings) (key : String) (v : Node) : Option Settings :=
  match key with
  | "solver" => (textOf? d v).map fun x => { s with solver := x }
  | "timeout" => (textOf? d v).map fun x => { s with timeout := x }
  | "jobs" => (numberOf? d v).map fun x => { s with jobs := x }
  | "color" => (boolOf? d v).map fun x => { s with color := x }
  | "exclude" => (listOf? d v).map fun x => { s with exclude := x }
  | "dump" => (boolOf? d v).map fun x => { s with dump := x }
  | "model" => (boolOf? d v).map fun x => { s with model := x }
  | _ => none

def isMerge : Node → Bool
  | .scalar text tag isImplicit => text == "<<" && (isImplicit || tag == common ++ "merge")
  | _ => false

mutual

def assignAll (d : Document) : Nat → List (Node × Node) → List String → Settings → Option Settings
  | 0, _, _, _ => none
  | _ + 1, [], _, s => some s
  | fuel + 1, (k, v) :: pairs, seen, s => do
    if isMerge k then assignAll d fuel pairs seen (← merge d fuel v s)
    else
      let key ← textOf? d k
      if seen.contains key then none
      assignAll d fuel pairs (key :: seen) (← assign d s key v)

/-- Takes in a mapping, or the mappings of a list from its end. -/
def merge (d : Document) : Nat → Node → Settings → Option Settings
  | 0, _, _ => none
  | fuel + 1, .list items, s => mergeItems d fuel items.reverse s
  | fuel + 1, n, s => mergeOne d fuel n s

def mergeItems (d : Document) : Nat → List Node → Settings → Option Settings
  | 0, _, _ => none
  | _ + 1, [], s => some s
  | fuel + 1, n :: ns, s => do mergeItems d fuel ns (← mergeOne d fuel n s)

def mergeOne (d : Document) : Nat → Node → Settings → Option Settings
  | 0, _, _ => none
  | fuel + 1, n, s =>
    match resolved d n with
    | .mapping pairs => assignAll d fuel pairs [] s
    | _ => none

end

def apply (text : String) (s : Settings) : Option Settings := do
  match ← read text with
  | none => some s
  | some d =>
    match d.root with
    | .mapping pairs => assignAll d (text.length * text.length + text.length + 8) pairs [] s
    | .scalar text tag isImplicit =>
      if scalarMeaning? text tag isImplicit = some .null then some blank else none
    | _ => none

end Faultline.Settings.Yaml
