/-
# Command.Run — the commands

`check` instruments each file and asks about every sentinel, `query` asks about the
sentinels a file already has, and `instrument` writes a file with its sentinels. The
reports on a file are printed before the next file is read. The first failure ends a
command.
-/
import Faultline.Check.Module
import Faultline.Command.Configure
import Faultline.Command.Usage
import Faultline.IR.Assembly.Parser
import Faultline.Instrument.Insertion

namespace Faultline.Command

open IR (Module)

inductive Error where
  | help
  /-- Reports were found, and that was to count as a failure. -/
  | reports
  | unknownCommand (name : String)
  | noFile
  | tooManyFiles
  | config (error : ConfigError)
  | file (path : String) (error : FileError)
  | source (path : String)
  | untypable
  | instrument (error : Instrument.Error)
  | check (error : Check.Error)
  | output (path : String) (error : FileError)
  | refused (fault : Fault)
  deriving DecidableEq, Inhabited

def Error.message? : Error → Option String
  | .help => some FlagError.help.message
  | .reports => some "integer errors found"
  | .unknownCommand name => some ("kint " ++ name ++ ": unknown command")
  | .noFile => some "ir file required"
  | .tooManyFiles => some "too many ir files specified"
  | .config e => some e.message
  | .file path e => some ("parse " ++ path ++ ": " ++ (readFailure path e).message)
  | .source path => some ("parse " ++ path ++ ": malformed module")
  | .untypable => none
  | .instrument e => e.message?
  | .check e => e.message?
  | .output path e => some ("open " ++ path ++ ": " ++ e.text)
  | .refused f => f.message?

def Error.status : Error → UInt32
  | .reports | .untypable | .refused _ | .config (.broken _) | .instrument (.refused _) | .check (.refused _) => 2
  | _ => 1

abbrev Act := ExceptT Error Program

def orFail {α : Type} (p : Program (Except ConfigError α)) : Act α := do
  match ← (p : Program _) with
  | .ok a => pure a
  | .error e => throw (.config e)

/-- The options of a command; a mistake is shown with the usage. -/
def flags (spec : FlagSpec) (usage : String) (words : List String) : Act Flags := do
  match Flags.parse spec words with
  | .ok f => pure f
  | .error .help => do
    Program.err usage
    throw .help
  | .error e => do
    Program.err (e.message ++ "\n" ++ usage)
    throw (.config (.flags e))

def source (path : String) : Act Module := do
  match ← (Program.readFile path : Program _) with
  | .error e => throw (.file path e)
  | .ok text =>
    match IR.Assembly.parse text with
    | .ok m => pure m
    | .error .malformed => throw (.source path)
    | .error .untypable => throw .untypable

/-- Logs what is wanted: errors, and everything if there is to be talk. -/
def report (verbose : Bool) (entries : List LogEntry) : Act Unit :=
  Program.tell (entries.filter fun e => verbose || e.level = .error)

def inFile (path : String) (e : LogEntry) : LogEntry :=
  { e with fields := e.fields.put "file" (.text path) }

/-- The module with its sentinels. -/
def instrumented (verbose : Bool) (path : String) (m : Module) : Act (Module × InsertTally) := do
  let o := Instrument.ofModule m
  report verbose (o.log.toList.map (inFile path))
  match o.result with
  | .ok t => pure (o.module, t)
  | .error e => throw (.instrument e)

/-! ## Checking -/

/-- How much of the work is already done in the files. -/
inductive Mode where
  | check
  | query
  deriving DecidableEq, Inhabited

/-- Text in a colour of the terminal, if colours are wanted. -/
def painted (color : Bool) (code text : String) : String :=
  if color then "\x1b[" ++ code ++ "m" ++ text ++ "\x1b[0m" else text

def reportLine (color : Bool) (r : Check.Report) : String :=
  painted color "1;31" (Check.Report.title ++ ":") ++ " " ++ painted color "35" r.location ++ ": "
    ++ r.inst ++ "\n"

/-- Checks one file and prints its reports; gives their number. -/
def checkFile (mode : Mode) (s : Settings) (solver : Solver) (path : String) :
    Act (Nat × Solver) := do
  let m ← source path
  let m ← match mode with
    | .check => do pure (← instrumented s.verbose path m).1
    | .query => pure m
  let options : Check.Options :=
    { exclude := s.exclude, dumpFormulas := s.dump, dumpModels := s.model }
  match (Check.module options m fun _ _ => false).run { solver := solver } with
  | (r, state) => do
    report s.verbose state.log.toList
    match r with
    | .error e => throw (.check e)
    | .ok (reports, t) => do
      report s.verbose [⟨.info, "checked", [("file", .text path), ("functions", .number t.functions),
        ("sentinels", .number t.sentinels), ("reports", .number t.reports)]⟩]
      Program.out (String.join (reports.map (reportLine s.color)))
      pure (reports.length, state.solver)

def checkFiles (mode : Mode) (s : Settings) : Solver → List String → Act Nat
  | _, [] => pure 0
  | solver, path :: paths => do
    let (n, solver) ← checkFile mode s solver path
    pure (n + (← checkFiles mode s solver paths))

def runCheck (mode : Mode) (words : List String) : Act Unit := do
  let usage := match mode with
    | .check => Usage.check
    | .query => Usage.query
  let f ← flags (("fail", .switch) :: settingFlags) usage words
  let s ← orFail (configure f)
  if f.args.isEmpty then throw .noFile
  let solver ← orFail (pure (solverFor s))
  let n ← checkFiles mode s solver f.args
  if (f.switch? "fail").getD false && n > 0 then throw .reports

/-! ## Instrumenting -/

def instrumentFlags : FlagSpec :=
  [("v", .switch), ("o", .text)]

def runInstrument (words : List String) : Act Unit := do
  let f ← flags instrumentFlags Usage.instrument words
  match f.args with
  | [] => throw .noFile
  | [path] => do
    let verbose := (f.switch? "v").getD false
    let (m, t) ← instrumented verbose path (← source path)
    report verbose [⟨.info, "instrumented", [("sentinels", .number t.total)]⟩]
    match m.text with
    | none => throw (.refused .unprintable)
    | some (text, _) =>
      match (f.text? "o").getD "" with
      | "" => Program.out text
      | target => do
        match ← (Program.writeFile target text : Program _) with
        | .ok _ => pure ()
        | .error e => throw (.output target e)
  | _ => throw .tooManyFiles

/-! ## Choosing a command -/

def run (words : List String) : Act Unit :=
  match words with
  | [] | "" :: _ | "-h" :: _ | "--help" :: _ | "help" :: _ => do
    Program.err Usage.overview
    throw .help
  | "check" :: words => runCheck .check words
  | "instrument" :: words => runInstrument words
  | "query" :: words => runCheck .query words
  | name :: _ => throw (.unknownCommand name)

/-- Runs the program; a failure is told unless it speaks for itself. Gives the exit status. -/
def program (words : List String) : Program UInt32 := do
  match ← (run words).run with
  | .ok _ => pure 0
  | .error e => do
    match e with
    | .help | .reports => pure ()
    | e => Program.err ((e.message?.getD "internal error") ++ "\n")
    pure e.status

end Faultline.Command
