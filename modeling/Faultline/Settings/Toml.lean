/-
# Settings.Toml — settings from a TOML file

Settings are keys of the outermost table, found without regard to case. Other keys
and tables are passed over, but have to be well formed. The value of a setting must
have its type.
-/
import Faultline.Settings.Basic
import Faultline.Settings.Toml.Document

namespace Faultline.Settings.Toml

def foldCase (s : String) : String :=
  s.map fun c => if c == 'ſ' then 's' else c.toLower

def textOf : Entry → Option String
  | .value (.text s) => some s
  | _ => none

def boolOf : Entry → Option Bool
  | .value (.bool b) => some b
  | _ => none

def intOf : Entry → Option Int
  | .value (.int n) => some n
  | _ => none

def listOf : Entry → Option (List String)
  | .value (.list items) => items.mapM fun v =>
    match v with
    | .text s => some s
    | _ => none
  | _ => none

def assign (s : Settings) (key : String) (e : Entry) : Option Settings :=
  match foldCase key with
  | "solver" => (textOf e).map fun x => { s with solver := x }
  | "timeout" => (textOf e).map fun x => { s with timeout := x }
  | "jobs" => (intOf e).map fun x => { s with jobs := x }
  | "color" => (boolOf e).map fun x => { s with color := x }
  | "exclude" => (listOf e).map fun x => { s with exclude := x }
  | "dump" => (boolOf e).map fun x => { s with dump := x }
  | "model" => (boolOf e).map fun x => { s with model := x }
  | _ => some s

def apply (text : String) (s : Settings) : Except Error Settings := do
  let t ← read text
  let settings? := t.entries.foldlM (fun s (k, e) =>
    match k with
    | [name] => assign s name e
    | _ => some s) s
  match settings? with
  | some s => pure s
  | none => malformed

end Faultline.Settings.Toml
