/-
# Solver — satisfiability of formulas

A query asks whether some assignment of the variables makes a formula of one bit
true. It is drawn as a circuit and decided; a circuit that became constant false is
answered without a search.

A solver may be limited in time for each query. A solver may also be given a quota
of queries, after which it answers with an error.
-/
import Faultline.Circuit.Blast
import Faultline.Sat.Decide

namespace Faultline

open Formula (Arena Handle)
open Circuit (Drawing Lit Word)

inductive SolverError where
  | timeout
  | canceled
  | resourceLimit
  | unknown
  deriving DecidableEq, Inhabited

def SolverError.message : SolverError → String
  | .timeout => "Solver timeout"
  | .canceled => "Solver canceled"
  | .resourceLimit => "Solver resource limit"
  | .unknown => "Solver unknown error"

abbrev Model := List (Handle × Nat)

inductive Verdict where
  | unsat
  | sat (model : Model)
  deriving Inhabited

namespace Circuit.Word

def value (assign : Nat → Bool) : Word → Nat
  | [] => 0
  | l :: x => (if assign l.gate != l.flipped then 1 else 0) + 2 * value assign x

end Circuit.Word

def Circuit.Drawing.model (d : Drawing) (assign : Nat → Bool) : Model :=
  d.vars.map fun f => (f, (d.words.at f).value assign)

structure Solver where
  /-- Nanoseconds for each query; not positive means no limit. -/
  timeout : Int := 0
  /-- How many queries are answered before the error. -/
  quota : Option (Nat × SolverError) := none
  solved : Nat := 0
  deriving Inhabited

namespace Solver

def conflictCost : Nat := 10000

def limit? (s : Solver) : Option Nat :=
  if s.timeout ≤ 0 then none else some (s.timeout.toNat / conflictCost)

def decideDrawing (limit? : Option Nat) (d : Drawing) : Except SolverError Verdict :=
  if d.root = .no then .ok .unsat
  else match Sat.decide d.circuit d.root limit? with
    | .sat assign => .ok (.sat (d.model assign))
    | .unsat => .ok .unsat
    | .spent => .error .timeout

/-- One query. The formula must be one bit wide. -/
def solve (s : Solver) (arena : Arena) (f : Handle) :
    Except Fault (Except SolverError Verdict) × Solver :=
  match s.quota with
  | some (0, e) => (.ok (.error e), s)
  | quota =>
    let s := { s with quota := quota.map fun (n, e) => (n - 1, e), solved := s.solved + 1 }
    match Circuit.blast arena f with
    | none => (.error .noCircuit, s)
    | some d => (.ok (decideDrawing s.limit? d), s)

end Solver

/-! ## Entailed values -/

def differ (words : Circuit.Words) : Model → Circuit.Draw Lit
  | [] => pure .no
  | (f, v) :: rest => do
    let x := words.at f
    let same ← Word.eq x (.ofNat x.length v)
    Circuit.or same.not (← differ words rest)

/-- Keeps those candidates on which every satisfying assignment agrees: as long as one disagrees
with some candidate, the candidates it disagrees with are dropped. -/
def agreed (d : Drawing) : Nat → Model → Model
  | 0, candidates => candidates
  | fuel + 1, candidates =>
    let (root, circuit) := (do Circuit.and d.root (← differ d.words candidates)).run d.circuit
    if root = .no then candidates
    else match Sat.decide circuit root none with
      | .sat assign =>
        agreed d fuel (candidates.filter fun (f, v) => (d.words.at f).value assign = v)
      | _ => candidates

/-- For each variable of the satisfiable formula `f`, in ascending order, the value that all
satisfying assignments give it, if they agree. -/
def entailed (arena : Arena) (f : Handle) (model : Model) : List (Handle × Option Nat) :=
  match Circuit.blast arena f with
  | none => []
  | some d =>
    let fixed := agreed d (model.length + 1) model
    model.map fun (g, v) => (g, if fixed.contains (g, v) then some v else none)

def Formula.Arena.varName (arena : Arena) (f : Handle) : String :=
  match arena.node? f with
  | some ⟨_, .var name⟩ => name
  | _ => ""

/-- What can be asked: a held formula of one bit. -/
def askable (f : Handle) : Formula.Build Unit := do
  let n ← Formula.held f
  Formula.need (n.width = 1) (.queryWidth n.width)

/-- A query, by the solver there is. A query that is refused halfway counts as worked on. -/
def query (solver? : Option Solver) (arena : Arena) (f : Handle) :
    Except Fault (Except SolverError Verdict) × Option Solver :=
  match askable f arena, solver? with
  | (.error e, _), _ => (.error e, solver?)
  | (.ok _, _), none => (.error .noSolver, none)
  | (.ok _, _), some s =>
    match s.solve arena f with
    | (r, s) => (r, some s)

end Faultline
