/-
# Check.Function — the sentinels of one function

Each sentinel call is asked about in an arena of its own: can its condition hold
while control reaches its block along edges other than back edges? If so there is a
report on the instruction that follows the call. A call that occurs at several
positions has one number; once it is reported it is not asked about again.
-/
import Faultline.Analysis.Condition
import Faultline.Check.Report
import Faultline.Formula.Script
import Faultline.Tally

namespace Faultline.Check

open IR (Module ValueId Func)
open Faultline.Flow (Graph)

structure Options where
  exclude : List String := []
  /-- Log each query as a script. -/
  dumpFormulas : Bool := false
  /-- Log the model of each report. -/
  dumpModels : Bool := false
  deriving DecidableEq, Inhabited

inductive Error where
  | layout (error : Layout.SpecError)
  | pattern (pattern : String)
  | interrupted
  | solver (function inst : String) (error : SolverError)
  | refused (fault : Fault)
  deriving DecidableEq, Inhabited

def Error.message? : Error → Option String
  | .layout e => e.message?
  | .pattern p => some ("exclude pattern " ++ Text.quote p ++ ": syntax error in pattern")
  | .interrupted => some "context canceled"
  | .solver f i e => some (f ++ ": " ++ i ++ ": " ++ e.message)
  | .refused f => f.message?

/-- The solver and the log pass from query to query. -/
structure State where
  solver : Solver
  log : Array LogEntry := #[]

abbrev Examine := ExceptT Error (StateM State)

def say (level : LogLevel) (message : String) (fields : LogFields) : Examine Unit :=
  modify fun s => { s with log := s.log.push ⟨level, message, fields⟩ }

/-! ## One sentinel -/

/-- The formula for a sentinel call: its condition holds and its block is reached. The caller
owns references to all three. -/
def question (s : Setting) (block call : ValueId) : Analyze (Formula.Handle × Formula.Handle × Formula.Handle) := do
  let bug ← Analysis.conditionOf s call
  let reach ← Analysis.path s block
  let both ← build (Formula.arith .and bug reach)
  pure (bug, reach, both)

/-- Gives everything back; what is left over is a leak. -/
def settle (held : List Formula.Handle) : Analyze Nat := do
  build (Formula.release held)
  Analysis.closePaths
  Analysis.closeValues
  pure (← get).arena.close.1

def analyze {α : Type} (x : Analyze α) (b : Bench) : Examine (α × Bench) :=
  match x.run b with
  | (r, b) => do
    modify fun s => { s with log := s.log ++ b.log }
    match r with
    | .ok a => pure (a, { b with log := #[] })
    | .error e => throw (.refused e)

def solve (arena : Formula.Arena) (f : Formula.Handle) : Examine (Except SolverError Verdict) := do
  let s ← get
  match query (some s.solver) arena f with
  | (r, solver) => do
    set { s with solver := solver.getD s.solver }
    match r with
    | .error e => throw (.refused e)
    | .ok answer => pure answer

/-- Writes a query into the log, if it is to be logged. -/
def dump (o : Options) (s : Setting) (f : Formula.Handle) (b : Bench) : Examine Unit := do
  if o.dumpFormulas then
    let (script, _) ← analyze (build (Formula.script f)) b
    say .debug ("query:\n" ++ script) s.fields

def giveBack (s : Setting) (held : List Formula.Handle) (b : Bench) : Examine Unit := do
  let (left, _) ← analyze (settle held) b
  if left ≠ 0 then
    say .error "formula leak" (s.fields.put "error" (.text s!"kint: {left} formula references leaked"))

/-- Asks about one sentinel call; `inst` is the text of what it guards. Everything is given back,
also when the solver fails. -/
def ask (o : Options) (s : Setting) (block call : ValueId) (inst : String) :
    Examine (Verdict × Question) := do
  let ((bug, reach, both), b) ← analyze (question s block call) s.start
  dump o s both b
  let answer ← solve b.arena both
  giveBack s [bug, reach, both] b
  match answer with
  | .error e => throw (.solver (Text.shown s.graph.func.name) inst e)
  | .ok verdict => pure (verdict, ⟨b.arena, both⟩)

/-! ## All sentinels -/

/-- A position in a function: a value, the value that follows it, and its block. -/
structure Site where
  block : ValueId
  call : ValueId
  next : Option ValueId

/-- Each instruction of a block with what follows it. -/
def sitesFrom (block : ValueId) (term : Option ValueId) : List ValueId → List Site
  | [] => []
  | v :: vs => ⟨block, v, vs.head? <|> term⟩ :: sitesFrom block term vs

def sites (m : Module) (f : Func) : List Site :=
  (f.blocks.toList.flatMap fun b => sitesFrom b.id b.term b.insts.toList).filter fun s =>
    Sentinel.isCall m s.call

/-- The label of a block; empty without a name. -/
def blockLabel (m : Module) (b : ValueId) : String :=
  match m.get? b with
  | some (.block n) => Text.shown n.label
  | _ => ""

/-- Puts a report at its number. -/
def insertReport (id : Nat) (r : Report) : List (Nat × Report) → List (Nat × Report)
  | [] => [(id, r)]
  | (n, q) :: rest => if id < n then (id, r) :: (n, q) :: rest else (n, q) :: insertReport id r rest

def text (t : Option String) : Examine String :=
  match t with
  | some s => pure s
  | none => throw (.refused .unprintable)

/-- A line for each variable. -/
def modelText (arena : Formula.Arena) (model : Model) : String :=
  String.join (model.map fun (f, v) => arena.varName f ++ s!" = {v}\n")

/-- Writes the model of a report into the log, if models are to be logged. -/
def dumpModel (o : Options) (s : Setting) (q : Question) (model : Model) : Examine Unit := do
  if o.dumpModels then say .debug ("model:\n" ++ modelText q.arena model) s.fields

def reportOn (s : Setting) (site : Site) (inst : String) (model : Model) (q : Question) : Report where
  module := Text.shown s.module.sourceFilename
  function := Text.shown s.graph.func.name
  block := blockLabel s.module site.block
  kind := (site.next.map (Kind.ofValue s.module)).getD (.other 0)
  inst := inst
  model := model
  question := q

/-- Goes through the sentinels; `found` are the reports so far, by number. -/
def visit (o : Options) (s : Setting) (interrupted : Nat → Bool) :
    List Site → Nat → List (Nat × Report) → Examine (List (Nat × Report))
  | [], _, found => pure found
  | site :: rest, k, found => do
    if interrupted k then throw .interrupted
    let id := (s.graph.id? site.call).getD 0
    if found.any fun r => r.1 = id then visit o s interrupted rest (k + 1) found
    else
      let inst ← text (site.next.bind s.module.lineText)
      let block ← text (s.module.identText site.block)
      let s' := { s with fields := (s.fields.put "block" (.text block)).put "inst" (.text inst) }
      match ← ask o s' site.block site.call inst with
      | (.unsat, _) => visit o s interrupted rest (k + 1) found
      | (.sat model, q) => do
        dumpModel o s' q model
        visit o s interrupted rest (k + 1) (insertReport id (reportOn s site inst model q) found)

def function (o : Options) (m : Module) (layout : Layout) (f : Func) (interrupted : Nat → Bool) :
    Examine (List Report × CheckTally) := do
  match Graph.ofFunc m f with
  | .error e => throw (.refused e)
  | .ok g =>
    let cut := g.backEdges
    let fields := [("func", LogValue.text (Text.shown f.name))]
    say .debug "checking" (LogFields.put fields "backedges" (.number cut.size))
    let calls := sites m f
    let found ← visit o ⟨m, layout, g, cut, fields⟩ interrupted calls 0 []
    let reports := found.map Prod.snd
    pure (reports, { functions := 1, sentinels := calls.length, reports := reports.length })

end Faultline.Check
