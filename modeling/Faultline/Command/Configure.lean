/-
# Command.Configure — settings from a file and from options

The settings a command works with are the defaults, changed by the file named by the
option `config`, changed by the options that are given. The format of a file goes by
the end of its name.
-/
import Faultline.Command.Flags
import Faultline.Command.Program
import Faultline.Settings.Toml
import Faultline.Settings.Yaml
import Faultline.Solver

namespace Faultline.Command

inductive ConfigError where
  | flags (error : FlagError)
  | file (verb path : String) (error : FileError)
  | format (ending : String)
  | malformed (path : String)
  /-- A file that broke its reader. -/
  | broken (message : String)
  | timeout (error : DurationError)
  | solver (name : String)
  deriving DecidableEq, Inhabited

def solverNames : List String := ["gini"]

def ConfigError.message : ConfigError → String
  | .flags e => e.message
  | .file verb path e => verb ++ " " ++ path ++ ": " ++ e.text
  | .format ending => "unsupported config format: " ++ Text.quote ending
  | .malformed path => "parse config " ++ path ++ ": malformed settings"
  | .broken m => m
  | .timeout e => "invalid timeout: " ++ e.message
  | .solver name =>
    "unknown solver " ++ Text.quote name ++ ", expected one of: " ++ ", ".intercalate solverNames

/-- How a file could not be read: a directory can be opened, but not read. -/
def readFailure (path : String) (e : FileError) : ConfigError :=
  .file (if e = .isDirectory then "read" else "open") path e

def settingFlags : FlagSpec :=
  [("config", .text), ("v", .switch), ("solver", .text), ("timeout", .text), ("j", .number),
    ("color", .switch), ("exclude", .text), ("dump", .switch), ("model", .switch)]

/-- The end of a file name, from its last point on. -/
def endingOf (path : String) : String :=
  let name := ((path.splitOn "/").getLast?.getD "").toList
  let after := name.reverse.takeWhile (· != '.')
  if after.length = name.length then "" else String.ofList ('.' :: after.reverse)

/-- The settings of a file on top of the defaults. -/
def load (path text : String) : Except ConfigError Settings :=
  let ending := endingOf path
  if ending == ".yml" || ending == ".yaml" then
    match Settings.Yaml.apply text {} with
    | some s => .ok s
    | none => .error (.malformed path)
  else if ending == ".toml" then
    match Settings.Toml.apply text {} with
    | .ok s => .ok s
    | .error .malformed => .error (.malformed path)
    | .error e => .error (.broken e.message)
  else .error (.format ending)

/-- Options that are given count more than anything else. -/
def override (f : Flags) (s : Settings) : Settings :=
  { solver := (f.text? "solver").getD s.solver
    timeout := (f.text? "timeout").getD s.timeout
    jobs := (f.number? "j").getD s.jobs
    color := (f.switch? "color").getD s.color
    exclude := ((f.text? "exclude").map (String.splitOn · ",")).getD s.exclude
    dump := (f.switch? "dump").getD s.dump
    model := (f.switch? "model").getD s.model
    verbose := (f.switch? "v").getD s.verbose }

def checked (f : Flags) (s : Settings) : Except ConfigError Settings :=
  let s := override f s
  match s.limit with
  | .ok _ => .ok s
  | .error e => .error (.timeout e)

def configure (f : Flags) : Program (Except ConfigError Settings) := do
  match f.text? "config" with
  | none | some "" => pure (checked f {})
  | some path => do
    match ← Program.readFile path with
    | .error e => pure (.error (readFailure path e))
    | .ok text =>
      match load path text with
      | .ok s => pure (checked f s)
      | .error e => pure (.error e)

def solverFor (s : Settings) : Except ConfigError Solver :=
  if solverNames.contains s.solver then
    match s.limit with
    | .ok n => .ok { timeout := n }
    | .error e => .error (.timeout e)
  else .error (.solver s.solver)

end Faultline.Command
